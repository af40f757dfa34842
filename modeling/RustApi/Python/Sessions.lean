import RustApi.Engine.ServingSafety
import RustApi.Python.App

/-!
# An application that serves

`PyApp.run` does not return while its server serves, and until then the object is borrowed: PyO3 refuses
every other call on it.  An exception of the event loop can leave the call.  The servers that were started
live on in their tasks, each with the router that was moved into it.

`AppState.step` is one such event.  `Ledger` is what the object is for: it hands the registrations since the
last run to the next.  `servers_serve_their_batch` connects the two, and `served_by_own_batch` follows a
registration to the calls that a server makes.
-/

namespace RustApi

open RustStd StepRuns

/-- What happens to an application object and its servers. -/
inductive AppEvent (H : Type) (X : HttpCrate)
  | call (c : PyCall H)
  | routeCount
  /-- An exception of the event loop leaves the call of `run`. -/
  | left (error : Str)
  | server (k : ℕ) (e : ServerEvent X)

/-- The answer to an event. -/
inductive AppAnswer (H : Type) (X : HttpCrate)
  /-- PyO3: the object is already mutably borrowed. -/
  | borrowed
  | registered (result : Except PyError H)
  | counted (n : ℕ)
  /-- `run` raises, or it serves and has not returned yet. -/
  | ran (result : Except PyError Unit)
  | left (error : Str)
  | did (result : Except Unit (List (Output H X)))

structure AppState {H : Type} (M : Matchit H) (X : HttpCrate) where
  app : PyApp M
  /-- A call of `run` has not returned. -/
  running : Bool
  servers : List (Server M)
  conns : ℕ → ℕ → Connection X

namespace AppState

variable {H : Type} {M : Matchit H} {X : HttpCrate}

def new (M : Matchit H) (X : HttpCrate) (serverName : Option Str) : AppState M X where
  app := PyApp.new M serverName
  running := false
  servers := []
  conns := fun _ _ => Connection.new X

def step (serdeJson : SerdeJson) (s : AppState M X) : AppEvent H X → AppAnswer H X × AppState M X
  | .call (.register method path handler) =>
      if s.running then (.borrowed, s)
      else
        let result := s.app.register X method path handler
        (.registered result.1, { s with app := result.2 })
  | .call (.run host port net) =>
      if s.running then (.borrowed, s)
      else
        let result := s.app.run host port net
        match result.1 with
        | .error e => (.ran (.error e), { s with app := result.2 })
        | .ok server => (.ran (.ok ()),
            { s with app := result.2, running := true, servers := s.servers ++ [server] })
  | .routeCount => if s.running then (.borrowed, s) else (.counted s.app.routeCount, s)
  | .left error =>
      if s.running then (.left error, { s with running := false }) else (.did (.error ()), s)
  | .server k e =>
      match s.servers[k]? with
      | none => (.did (.error ()), s)
      | some server =>
          let result := server.step serdeJson (s.conns k) e
          (.did result.1, { s with conns := Function.update s.conns k result.2 })

/-- The object and its servers after a list of events. -/
def after (serdeJson : SerdeJson) (M : Matchit H) (X : HttpCrate) (serverName : Option Str)
    (events : List (AppEvent H X)) : AppState M X :=
  runFrom (step serdeJson) (new M X serverName) events

def trace (serdeJson : SerdeJson) (M : Matchit H) (X : HttpCrate) (serverName : Option Str)
    (events : List (AppEvent H X)) : List (AppEvent H X × AppAnswer H X) :=
  traceFrom (step serdeJson) (new M X serverName) events

/-- The call that an entry of a trace stands for, unless it was refused. -/
def performedCall : AppEvent H X × AppAnswer H X → Option (PyCall H)
  | (.call _, .borrowed) => none
  | (.call c, _) => some c
  | _ => none

/-- The calls on the object that were not refused. -/
def performed (t : List (AppEvent H X × AppAnswer H X)) : List (PyCall H) := t.filterMap performedCall

/-- What an entry of a trace means to the server `k`. -/
def serverEntry (k : ℕ) :
    AppEvent H X × AppAnswer H X → Option (ServerEvent X × Except Unit (List (Output H X)))
  | (.server k' e, .did result) => if k' = k then some (e, result) else none
  | _ => none

/-- What happened on the server `k`. -/
def serverEntries (k : ℕ) (t : List (AppEvent H X × AppAnswer H X)) :
    List (ServerEvent X × Except Unit (List (Output H X))) := t.filterMap (serverEntry k)

end AppState

/-! ### What an application is for -/

/-- A run, with the registrations it takes. -/
structure Handover (H : Type) where
  host : Option Str
  port : Option UInt16
  net : Net
  adds : List (AddCall H)

/-- The runs, and the registrations since the last. -/
structure Ledger (H : Type) where
  runs : List (Handover H)
  pending : List (AddCall H)

namespace Ledger

variable {H : Type} (X : HttpCrate)

def step (l : Ledger H) : PyCall H → Ledger H
  | .run host port net => ⟨l.runs ++ [⟨host, port, net, l.pending⟩], []⟩
  | .register method path handler =>
      ⟨l.runs, l.pending ++ (PyCall.addCall X (.register method path handler)).toList⟩

/-- The ledger after a list of calls. -/
def after (calls : List (PyCall H)) : Ledger H := calls.foldl (step X) ⟨[], []⟩

theorem after_snoc (calls : List (PyCall H)) (c : PyCall H) :
    after X (calls ++ [c]) = step X (after X calls) c := by
  rw [after, List.foldl_append]
  rfl

/-- **No registration is lost, and none is handed over twice.** -/
theorem conserved (calls : List (PyCall H)) :
    (after X calls).runs.flatMap Handover.adds ++ (after X calls).pending = PyApp.adds X calls := by
  induction calls using List.reverseRecOn with
  | nil => rfl
  | append_singleton calls c ih =>
      rw [after_snoc, PyApp.adds_snoc, ← ih]
      cases c with
      | run host port net =>
          show (_ ++ [_]).flatMap Handover.adds ++ [] = _ ++ []
          rw [List.flatMap_append, List.append_nil, List.append_nil]
          congr 1
          exact List.flatMap_singleton _ _
      | register method path handler => exact (List.append_assoc _ _ _).symm

end Ledger

/-- The server that a run means to start. -/
def Handover.server {H : Type} (M : Matchit H) (serverName : Option Str) (h : Handover H) : Server M :=
  Server.new (Router.after M h.adds) ((PyApp.new M serverName).runConfig h.host h.port)

/-- Its address parses and can be bound. -/
def Handover.listens {H : Type} (M : Matchit H) (serverName : Option Str) (h : Handover H) : Bool :=
  (h.net.parseAddr (h.server M serverName).config.addrText >>= h.net.bind).isOk

namespace AppState

variable {H : Type} {M : Matchit H} {X : HttpCrate} (serdeJson : SerdeJson)

/-- The servers that a ledger starts. -/
def startedBy (M : Matchit H) (serverName : Option Str) (runs : List (Handover H)) : List (Server M) :=
  (runs.filter (Handover.listens M serverName)).map (Handover.server M serverName)

/-- What a server has done: nothing before it was started, and what it does on its own since then. -/
inductive Did (serdeJson : SerdeJson) : Option (Server M) →
    List (ServerEvent X × Except Unit (List (Output H X))) → (ℕ → Connection X) → Prop
  | idle (early : List (ServerEvent X)) :
      Did serdeJson none (early.map (·, .error ())) fun _ => Connection.new X
  | served (server : Server M) (early late : List (ServerEvent X)) :
      Did serdeJson (some server) (early.map (·, .error ()) ++ server.trace serdeJson late)
        (server.after serdeJson late)

/-- The state that a trace leads to. -/
structure Agrees (serdeJson : SerdeJson) (serverName : Option Str)
    (t : List (AppEvent H X × AppAnswer H X)) (s : AppState M X) : Prop where
  config_eq : s.app.config = (PyApp.new M serverName).config
  router_eq : s.app.router = Router.after M (Ledger.after X (performed t)).pending
  servers_eq : s.servers = startedBy M serverName (Ledger.after X (performed t)).runs
  /-- A run that has not returned has taken everything. -/
  pending_eq : s.running = true → (Ledger.after X (performed t)).pending = []
  did : ∀ k, Did serdeJson s.servers[k]? (serverEntries k t) (s.conns k)

/-! ### One event -/

theorem performed_snoc (t : List (AppEvent H X × AppAnswer H X)) (x : AppEvent H X × AppAnswer H X) :
    performed (t ++ [x]) = performed t ++ (performedCall x).toList := by
  rw [performed, List.filterMap_append, performed]
  cases hx : performedCall x with
  | none => rw [List.filterMap_cons_none hx]; rfl
  | some c => rw [List.filterMap_cons_some hx]; rfl

theorem serverEntries_snoc (k : ℕ) (t : List (AppEvent H X × AppAnswer H X))
    (x : AppEvent H X × AppAnswer H X) :
    serverEntries k (t ++ [x]) = serverEntries k t ++ (serverEntry k x).toList := by
  rw [serverEntries, List.filterMap_append, serverEntries]
  cases hx : serverEntry k x with
  | none => rw [List.filterMap_cons_none hx]; rfl
  | some e => rw [List.filterMap_cons_some hx]; rfl

/-- A server that is started has done nothing but refuse. -/
theorem Did.start {entries : List (ServerEvent X × Except Unit (List (Output H X)))}
    {conns : ℕ → Connection X} (h : Did serdeJson (none : Option (Server M)) entries conns)
    (server : Server M) : Did serdeJson (some server) entries conns := by
  cases h with
  | idle early =>
      have hserved : Did serdeJson (some server) _ _ := .served server early []
      rw [Server.trace, traceFrom_nil, List.append_nil] at hserved
      exact hserved

/-- Nobody is there to take the event. -/
theorem Did.refuse {entries : List (ServerEvent X × Except Unit (List (Output H X)))}
    {conns : ℕ → Connection X} (h : Did serdeJson (none : Option (Server M)) entries conns)
    (e : ServerEvent X) :
    Did serdeJson (none : Option (Server M)) (entries ++ [(e, .error ())]) conns := by
  cases h with
  | idle early =>
      have hidle : Did serdeJson (none : Option (Server M)) _ _ := .idle (early ++ [e])
      rw [List.map_append] at hidle
      exact hidle

/-- The server takes the event. -/
theorem Did.serve {entries : List (ServerEvent X × Except Unit (List (Output H X)))}
    {conns : ℕ → Connection X} {server : Server M} (h : Did serdeJson (some server) entries conns)
    (e : ServerEvent X) :
    Did serdeJson (some server) (entries ++ [(e, (server.step serdeJson conns e).1)])
      (server.step serdeJson conns e).2 := by
  cases h with
  | served _ early late =>
      have hserved : Did serdeJson (some server) _ _ := .served server early (late ++ [e])
      rw [Server.trace, traceFrom_snoc, Server.after, runFrom_snoc, ← List.append_assoc] at hserved
      exact hserved

variable {serverName : Option Str} {t : List (AppEvent H X × AppAnswer H X)} {s s' : AppState M X}
  {serdeJson}

/-- An entry that is neither a call nor an event of a server. -/
theorem Agrees.idle (h : Agrees serdeJson serverName t s) {x : AppEvent H X × AppAnswer H X}
    (hcall : performedCall x = none) (hentry : ∀ k, serverEntry k x = none)
    (happ : s'.app = s.app) (hservers : s'.servers = s.servers)
    (hrunning : s'.running = true → s.running = true) (hconns : s'.conns = s.conns) :
    Agrees serdeJson serverName (t ++ [x]) s' where
  config_eq := by rw [happ, h.config_eq]
  router_eq := by rw [performed_snoc, hcall, Option.toList_none, List.append_nil, happ, h.router_eq]
  servers_eq := by
    rw [performed_snoc, hcall, Option.toList_none, List.append_nil, hservers, h.servers_eq]
  pending_eq hrun := by
    rw [performed_snoc, hcall, Option.toList_none, List.append_nil, h.pending_eq (hrunning hrun)]
  did k := by
    rw [serverEntries_snoc, hentry, Option.toList_none, List.append_nil, hservers, hconns]
    exact h.did k

/-- A call that is performed keeps the servers, and starts one at most. -/
theorem Agrees.call (h : Agrees serdeJson serverName t s) {c : PyCall H} {answer : AppAnswer H X}
    (hcall : performedCall (.call c, answer) = some c) (hconfig : s'.app.config = s.app.config)
    (hrouter : s'.app.router =
      Router.after M (Ledger.step X (Ledger.after X (performed t)) c).pending)
    (hservers : s'.servers =
      startedBy M serverName (Ledger.step X (Ledger.after X (performed t)) c).runs)
    (hpending : s'.running = true → (Ledger.step X (Ledger.after X (performed t)) c).pending = [])
    (hgrow : s.servers <+: s'.servers) (hconns : s'.conns = s.conns) :
    Agrees serdeJson serverName (t ++ [(.call c, answer)]) s' where
  config_eq := by rw [hconfig, h.config_eq]
  router_eq := by
    rw [performed_snoc, hcall, Option.toList_some, Ledger.after_snoc, hrouter]
  servers_eq := by
    rw [performed_snoc, hcall, Option.toList_some, Ledger.after_snoc, hservers]
  pending_eq hrun := by
    rw [performed_snoc, hcall, Option.toList_some, Ledger.after_snoc, hpending hrun]
  did k := by
    have hentry : serverEntry k (AppEvent.call c, answer) = none := rfl
    rw [serverEntries_snoc, hentry, Option.toList_none, List.append_nil, hconns]
    have hold := h.did k
    cases hk : s.servers[k]? with
    | some server =>
        obtain ⟨more, hmore⟩ := hgrow
        obtain ⟨hlt, -⟩ := List.getElem?_eq_some_iff.mp hk
        rw [← hmore, List.getElem?_append_left hlt]
        exact hold
    | none =>
        rw [hk] at hold
        cases s'.servers[k]? with
        | none => exact hold
        | some server => exact hold.start serdeJson server

/-- A registration that is not refused goes to the router of the object. -/
theorem Agrees.register (h : Agrees serdeJson serverName t s) (hidle : s.running = false)
    (method path : Str) (handler : H) :
    Agrees serdeJson serverName
      (t ++ [(.call (.register method path handler),
        (s.step serdeJson (.call (.register method path handler))).1)])
      (s.step serdeJson (.call (.register method path handler))).2 := by
  have hstep : s.step serdeJson (.call (.register method path handler)) =
      (.registered (s.app.register X method path handler).1,
        { s with app := (s.app.register X method path handler).2 }) :=
    if_neg (by rw [hidle]; exact Bool.false_ne_true)
  rw [hstep]
  refine h.call rfl ?_ ?_ h.servers_eq ?_ (List.prefix_refl _) rfl
  · exact PyApp.step_config s.app (.register method path handler)
  · have hrouter : (s.app.register X method path handler).2.router = _ :=
      PyApp.step_register_router s.app method path handler
    rw [hrouter, h.router_eq, Ledger.step]
    cases PyCall.addCall X (.register method path handler) with
    | none => rw [Option.toList_none, List.append_nil]
    | some c => rw [Option.toList_some, Router.after_snoc]
  · intro hrun
    exact absurd (hidle.symm.trans hrun) Bool.false_ne_true

/-- A run that is not refused takes the registrations, and starts a server if it can listen. -/
theorem Agrees.run (h : Agrees serdeJson serverName t s) (hidle : s.running = false)
    (host : Option Str) (port : Option UInt16) (net : Net) :
    Agrees serdeJson serverName
      (t ++ [(.call (.run host port net), (s.step serdeJson (.call (.run host port net))).1)])
      (s.step serdeJson (.call (.run host port net))).2 := by
  let handover : Handover H := ⟨host, port, net, (Ledger.after X (performed t)).pending⟩
  -- the server that is built before anything can fail is the one of the ledger
  have hserver : Server.new s.app.router (s.app.runConfig host port) =
      handover.server M serverName := by
    rw [Handover.server, ← h.router_eq, PyApp.runConfig, h.config_eq]
    rfl
  have hrun := PyApp.run_fst s.app host port net
  rw [hserver] at hrun
  have hlistens : handover.listens M serverName =
      (net.parseAddr (s.app.runConfig host port).addrText >>= net.bind).isOk := by
    rw [Handover.listens, ← hserver]
    rfl
  have hruns : startedBy M serverName ((Ledger.after X (performed t)).runs ++ [handover]) =
      s.servers ++ if handover.listens M serverName then [handover.server M serverName] else [] := by
    rw [startedBy, List.filter_append, List.map_append, h.servers_eq, startedBy]
    congr 1
    cases hl : handover.listens M serverName with
    | false => rw [List.filter_cons_of_neg (by rw [hl]; exact Bool.false_ne_true)]; rfl
    | true => rw [List.filter_cons_of_pos hl]; rfl
  have hstep : s.step serdeJson (.call (.run host port net)) =
      match (s.app.run host port net).1 with
      | .error e => (.ran (.error e), { s with app := (s.app.run host port net).2 })
      | .ok server => (.ran (.ok ()), { s with
          app := (s.app.run host port net).2, running := true, servers := s.servers ++ [server] }) :=
    if_neg (by rw [hidle]; exact Bool.false_ne_true)
  rw [hstep, hrun]
  cases hnet : net.parseAddr (s.app.runConfig host port).addrText >>= net.bind with
  | error e =>
      rw [hnet] at hlistens
      refine h.call rfl rfl rfl ?_ (fun _ => rfl) (List.prefix_refl _) rfl
      show s.servers = startedBy M serverName (_ ++ [handover])
      rw [hruns, hlistens]
      exact (List.append_nil _).symm
  | ok u =>
      rw [hnet] at hlistens
      refine h.call rfl rfl rfl ?_ (fun _ => rfl) (List.prefix_append _ _) rfl
      show s.servers ++ [handover.server M serverName] = startedBy M serverName (_ ++ [handover])
      rw [hruns, hlistens]
      rfl

/-- An event of a server. -/
theorem Agrees.server (h : Agrees serdeJson serverName t s) (k : ℕ) (e : ServerEvent X) :
    Agrees serdeJson serverName (t ++ [(.server k e, (s.step serdeJson (.server k e)).1)])
      (s.step serdeJson (.server k e)).2 := by
  have hcall (answer : AppAnswer H X) : performedCall (.server k e, answer) = none := by
    cases answer <;> rfl
  have hself (result : Except Unit (List (Output H X))) :
      serverEntry k (.server k e, .did result) = some (e, result) := if_pos rfl
  have hother {j : ℕ} (hj : k ≠ j) (result : Except Unit (List (Output H X))) :
      serverEntry j (.server k e, .did result) = none := if_neg hj
  have hold := h.did k
  rw [step]
  cases hk : s.servers[k]? with
  | none =>
      rw [hk] at hold
      refine ⟨h.config_eq, ?_, ?_, ?_, ?_⟩
      · rw [performed_snoc, hcall, Option.toList_none, List.append_nil]
        exact h.router_eq
      · rw [performed_snoc, hcall, Option.toList_none, List.append_nil]
        exact h.servers_eq
      · rw [performed_snoc, hcall, Option.toList_none, List.append_nil]
        exact h.pending_eq
      · intro j
        rw [serverEntries_snoc]
        by_cases hj : k = j
        · subst hj
          rw [hself, Option.toList_some, hk]
          exact hold.refuse serdeJson e
        · rw [hother hj, Option.toList_none, List.append_nil]
          exact h.did j
  | some server =>
      rw [hk] at hold
      refine ⟨h.config_eq, ?_, ?_, ?_, ?_⟩
      · rw [performed_snoc, hcall, Option.toList_none, List.append_nil]
        exact h.router_eq
      · rw [performed_snoc, hcall, Option.toList_none, List.append_nil]
        exact h.servers_eq
      · rw [performed_snoc, hcall, Option.toList_none, List.append_nil]
        exact h.pending_eq
      · intro j
        rw [serverEntries_snoc]
        by_cases hj : k = j
        · subst hj
          show Did serdeJson s.servers[k]? _ (Function.update s.conns k _ k)
          rw [hself, Option.toList_some, hk, Function.update_self]
          exact hold.serve serdeJson e
        · show Did serdeJson s.servers[j]? _ (Function.update s.conns k _ j)
          rw [hother hj, Option.toList_none, List.append_nil, Function.update_of_ne (Ne.symm hj)]
          exact h.did j

/-- **One event keeps the agreement.** -/
theorem Agrees.step (h : Agrees serdeJson serverName t s) (e : AppEvent H X) :
    Agrees serdeJson serverName (t ++ [(e, (s.step serdeJson e).1)]) (s.step serdeJson e).2 := by
  cases hrun : s.running with
  | true =>
      -- everything but the servers has to wait
      cases e with
      | call c =>
          cases c with
          | register method path handler =>
              have hstep : s.step serdeJson (.call (.register method path handler)) = (.borrowed, s) :=
                if_pos hrun
              rw [hstep]
              exact h.idle rfl (fun _ => rfl) rfl rfl id rfl
          | run host port net =>
              have hstep : s.step serdeJson (.call (.run host port net)) = (.borrowed, s) :=
                if_pos hrun
              rw [hstep]
              exact h.idle rfl (fun _ => rfl) rfl rfl id rfl
      | routeCount =>
          have hstep : s.step serdeJson .routeCount = (.borrowed, s) := if_pos hrun
          rw [hstep]
          exact h.idle rfl (fun _ => rfl) rfl rfl id rfl
      | left error =>
          have hstep : s.step serdeJson (.left error) = (.left error, { s with running := false }) :=
            if_pos hrun
          rw [hstep]
          exact h.idle rfl (fun _ => rfl) rfl rfl (fun _ => hrun) rfl
      | server k e => exact h.server k e
  | false =>
      have hidle : ¬ s.running = true := by
        rw [hrun]
        exact Bool.false_ne_true
      cases e with
      | call c =>
          cases c with
          | register method path handler => exact h.register hrun method path handler
          | run host port net => exact h.run hrun host port net
      | routeCount =>
          have hstep : s.step serdeJson .routeCount = (.counted s.app.routeCount, s) := if_neg hidle
          rw [hstep]
          exact h.idle rfl (fun _ => rfl) rfl rfl id rfl
      | left error =>
          have hstep : s.step serdeJson (.left error) = (.did (.error ()), s) := if_neg hidle
          rw [hstep]
          exact h.idle rfl (fun _ => rfl) rfl rfl id rfl
      | server k e => exact h.server k e

theorem agrees (serdeJson : SerdeJson) (M : Matchit H) (X : HttpCrate) (serverName : Option Str)
    (events : List (AppEvent H X)) :
    Agrees serdeJson serverName (trace serdeJson M X serverName events)
      (after serdeJson M X serverName events) := by
  induction events using List.reverseRecOn with
  | nil => exact ⟨rfl, rfl, rfl, fun _ => rfl, fun _ => .idle []⟩
  | append_singleton events e ih =>
      rw [trace, traceFrom_snoc, after, runFrom_snoc]
      exact ih.step e

/-- **Every server serves its own batch of registrations.**  Whatever is called when, from inside a handler
too, and however runs fail, serve and are left: the registrations that were not refused are handed over in
batches, none lost and none handed over twice; the object holds those since the last run, and none while it
serves; each run that can listen has started one server with its batch; and that server has done, since it
was started, what it does on its own. -/
theorem servers_serve_their_batch (serdeJson : SerdeJson) (M : Matchit H) (X : HttpCrate)
    (serverName : Option Str) (events : List (AppEvent H X)) :
    let s := after serdeJson M X serverName events
    let t := trace serdeJson M X serverName events
    let ledger := Ledger.after X (performed t)
    ledger.runs.flatMap Handover.adds ++ ledger.pending = PyApp.adds X (performed t) ∧
    s.app.router = Router.after M ledger.pending ∧ (s.running = true → ledger.pending = []) ∧
    s.servers = startedBy M serverName ledger.runs ∧
    ∀ k, Did serdeJson s.servers[k]? (serverEntries k t) (s.conns k) := by
  intro s t ledger
  have hagrees := agrees serdeJson M X serverName events
  exact ⟨Ledger.conserved X _, hagrees.router_eq, hagrees.pending_eq, hagrees.servers_eq,
    hagrees.did⟩

/-- What a server did, it did on one of its streams. -/
theorem Did.exists_stream {started : Option (Server M)}
    {entries : List (ServerEvent X × Except Unit (List (Output H X)))} {conns : ℕ → Connection X}
    {out : Output H X} (h : Did serdeJson started entries conns) (hout : out ∈ produced entries) :
    ∃ server late i, started = some server ∧
      out ∈ produced (entriesOf ServerEvent.on i (server.trace serdeJson late)) := by
  have hearly (early : List (ServerEvent X)) :
      out ∉ produced (early.map (·, (.error () : Except Unit (List (Output H X))))) := by
    intro hmem
    obtain ⟨e, outs, hentry, -⟩ := mem_produced.mp hmem
    obtain ⟨_, -, heq⟩ := List.mem_map.mp hentry
    cases heq
  cases h with
  | idle early => exact absurd hout (hearly early)
  | served server early late =>
      rw [produced_append, List.mem_append] at hout
      obtain ⟨i, hi⟩ := (Server.mem_produced_trace serdeJson server late out).mp
        (hout.resolve_left (hearly early))
      exact ⟨server, late, i, rfl, hi⟩

/-- **A handler is called by the server of its own batch.**  What the `k`-th server calls was registered
between the run that started it and the run before, successfully, and the router of this batch finds it for
the request. -/
theorem served_by_own_batch (hM : M.AtReturnsInserted) (serdeJson : SerdeJson)
    (serverName : Option Str) (events : List (AppEvent H X)) (k : ℕ) {handler : H}
    {request : Request X} (hcall : .called handler request ∈
      produced (serverEntries k (trace serdeJson M X serverName events))) :
    ∃ run, ((Ledger.after X (performed (trace serdeJson M X serverName events))).runs.filter
        (Handover.listens M serverName))[k]? = some run ∧
      ∃ c ∈ Router.registered M run.adds, c.handler = handler ∧ c.method.asStr = request.method ∧
        (Router.after M run.adds).matchRoute c.method request.path = .ok (handler, request.pathParams) := by
  have hagrees := agrees serdeJson M X serverName events
  obtain ⟨server, late, i, hserver, hout⟩ := (hagrees.did k).exists_stream hcall
  rw [hagrees.servers_eq, startedBy, List.getElem?_map] at hserver
  obtain ⟨run, hrun, rfl⟩ := Option.map_eq_some_iff.mp hserver
  rw [Server.entriesOf_trace] at hout
  obtain ⟨remote, head, body, -, -, hroute, hrequest⟩ :=
    Server.call_of_stream serdeJson _ (mem_callsIn.mpr hout)
  obtain ⟨c, hc, hmethod, hhandler⟩ := Router.matchRoute_handler hM hroute
  have hpath : request.path = head.path := by rw [hrequest]; rfl
  have hasStr : request.method = head.method.asStr := by rw [hrequest]; rfl
  refine ⟨run, hrun, c, hc, hhandler, by rw [hmethod, hasStr], ?_⟩
  rw [hmethod, hpath]
  exact hroute

/-- Every address can be listened on. -/
def listening : Net where
  parseAddr s := .ok ⟨s⟩
  bind _ := .ok ()

/-- A route is registered, the server runs, another registration is tried, and a user is asked for. -/
def userSession : List (AppEvent ℕ plainHttp) :=
  .call (.register "GET".toList "/users/{id}".toList 0) :: .call (.run none none listening) ::
    .call (.register "GET".toList "/users/42".toList 1) ::
      (Server.getUserEvents [] (.ok (.error "no such user".toList))).map (.server 0)

theorem served_by_own_batch_user : ∃ handler request,
    .called handler request ∈
      produced (serverEntries 0 (trace plainJson (routeList ℕ) plainHttp none userSession)) ∧
    ∃ run, ((Ledger.after plainHttp (performed (trace plainJson (routeList ℕ) plainHttp none
        userSession))).runs.filter (Handover.listens (routeList ℕ) none))[0]? = some run ∧
      ∃ c ∈ Router.registered (routeList ℕ) run.adds, c.handler = handler := by
  have hne : callsIn (produced (serverEntries 0
      (trace plainJson (routeList ℕ) plainHttp none userSession))) ≠ [] := List.cons_ne_nil _ _
  obtain ⟨⟨handler, request⟩, hmem⟩ := List.exists_mem_of_ne_nil _ hne
  have hcall := mem_callsIn.mp hmem
  obtain ⟨run, hrun, c, hc, hhandler, -, -⟩ := served_by_own_batch
    (routeList_atReturnsInserted ℕ) plainJson none userSession 0 hcall
  exact ⟨handler, request, hcall, run, hrun, c, hc, hhandler⟩

end AppState

end RustApi
