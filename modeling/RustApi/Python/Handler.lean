import RustApi.Python.Conversion
import RustApi.Python.Requests

/-!
# Python handlers

`PyHandler` makes a Python function a handler of the engine: it is called with the request as Python sees
it, what it returns is awaited if that is needed, and the result is converted.  Every step in Python may
raise; the text of the exception is then the handler's error.

The operations in Python are listed beside the result.  `comesTo` is the value a function comes to, and
what the handler returns depends on this value alone (`handle_snd`).  `called_handle` and `mem_handle`
say what is done in Python on the way.
-/

namespace RustApi

open RustStd

/-- What Python does for one call of a handler.  Each field is used at most once in a call; an exception is
represented by the text it displays. -/
structure Python (F : Type) where
  newRequest : PyRequest → Except Str Unit
  call1 : F → PyRequest → Except Str PyVal
  isawaitable : PyVal → Except Str Bool
  /-- `asyncio.run` on a thread of the blocking pool; the outer error is that of joining it. -/
  spawnBlocking : PyVal → Except Str (Except Str PyVal)

/-- An operation in Python. -/
inductive PyOp (F : Type)
  | cloneRef (callback : F)
  | newRequest (req : PyRequest)
  | call1 (callback : F) (req : PyRequest)
  | isawaitable (v : PyVal)
  | asyncioRun (v : PyVal)
  | convert (v : PyVal)

/-- A Python function as a handler. -/
structure PyHandler (F : Type) where
  callback : F
  deriving DecidableEq

/-- An operation whose exception ends the handler, and what comes after it. -/
def attach {F A B : Type} (op : PyOp F) (result : Except Str A)
    (rest : A → List (PyOp F) × Run (Except Str B)) : List (PyOp F) × Run (Except Str B) :=
  match result with
  | .error e => ([op], .ok (.error e))
  | .ok a => (op :: (rest a).1, (rest a).2)

section Handle

variable {F : Type} {X : HttpCrate}

/-- The operations in Python, and what the handler returns. -/
def PyHandler.handle (P : PyO3) (python : Python F) (handler : PyHandler F) (req : Request X) :
    List (PyOp F) × Run (Except Str (Response X)) :=
  let cb := handler.callback
  let pyReq := PyRequest.fromEngine req
  let convert finalValue := ([PyOp.convert finalValue], pyobjToResponse P finalValue)
  let called :=
    -- Step 1: build the request, call the Python handler.
    attach (.newRequest pyReq) (python.newRequest pyReq) fun _ =>
    attach (.call1 cb pyReq) (python.call1 cb pyReq) fun awaitableOrValue =>
    -- Step 2: if it's awaitable, run it to completion.
    attach (.isawaitable awaitableOrValue) (python.isawaitable awaitableOrValue) fun isAwaitable =>
    if isAwaitable then
      attach (.asyncioRun awaitableOrValue) (do
        let join ← python.spawnBlocking awaitableOrValue
        join) convert
    -- Step 3: convert the value.
    else convert awaitableOrValue
  (.cloneRef cb :: called.1, called.2)

/-- What the function comes to: the value it returns, or that of its awaitable. -/
def Python.comesTo (python : Python F) (callback : F) (req : PyRequest) : Except Str PyVal := do
  python.newRequest req
  let v ← python.call1 callback req
  if ← python.isawaitable v then
    let join ← python.spawnBlocking v
    join
  else pure v

/-- What a handler returns for a value. -/
def replyOf (P : PyO3) : Except Str PyVal → Run (Except Str (Response X))
  | .error e => .ok (.error e)
  | .ok v => pyobjToResponse P v

variable (P : PyO3) (python : Python F) (handler : PyHandler F) (req : Request X)

/-- An operation and the rest return what the operation and the rest come to. -/
theorem attach_snd {A : Type} (op : PyOp F) (result : Except Str A)
    {rest : A → List (PyOp F) × Run (Except Str (Response X))} {next : A → Except Str PyVal}
    (h : ∀ a, (rest a).2 = replyOf P (next a)) :
    (attach op result rest).2 = replyOf P (result >>= next) := by
  cases result with
  | error e => rfl
  | ok a => exact h a

/-- **What is returned depends on the value alone.** -/
theorem handle_snd : (handler.handle P python req).2 =
    replyOf P (python.comesTo handler.callback (PyRequest.fromEngine req)) := by
  have hconvert : ∀ v, ([PyOp.convert (F := F) v], (pyobjToResponse P v :
      Run (Except Str (Response X)))).2 = replyOf P (pure v) := fun _ => rfl
  refine attach_snd P _ _ fun _ => attach_snd P _ _ fun v => attach_snd P _ _ fun isAwaitable => ?_
  cases isAwaitable with
  | false => exact hconvert v
  | true =>
      have hrun := attach_snd P (.asyncioRun v) (python.spawnBlocking v >>= id) hconvert
      rw [bind_pure] at hrun
      exact hrun

/-! ### Calls of the function -/

/-- The function that an operation calls, and what it is called with. -/
def PyOp.called : PyOp F → Option (F × PyRequest)
  | .call1 callback req => some (callback, req)
  | _ => none

theorem called_attach {A B : Type} {op : PyOp F} (hop : op.called = none) (result : Except Str A)
    {rest : A → List (PyOp F) × Run (Except Str B)} {calls : List (F × PyRequest)}
    (h : ∀ a, (rest a).1.filterMap PyOp.called <+: calls) :
    (attach op result rest).1.filterMap PyOp.called <+: calls := by
  cases result with
  | error e =>
      rw [attach, List.filterMap_cons_none hop]
      exact List.nil_prefix
  | ok a =>
      rw [attach, List.filterMap_cons_none hop]
      exact h a

/-- **The function is called once at most**, with the request as Python sees it. -/
theorem called_handle : (handler.handle P python req).1.filterMap PyOp.called <+:
    [(handler.callback, PyRequest.fromEngine req)] := by
  have hconvert : ∀ v, ([PyOp.convert (F := F) v], (pyobjToResponse P v :
      Run (Except Str (Response X)))).1.filterMap PyOp.called <+: [] := fun _ => List.nil_prefix
  have hcalled : ∀ result : Except Str PyVal, ∀ rest : PyVal → List (PyOp F) × Run (Except Str (Response X)),
      (∀ v, (rest v).1.filterMap PyOp.called <+: []) →
      (attach (.call1 handler.callback (PyRequest.fromEngine req)) result rest).1.filterMap PyOp.called <+:
        [(handler.callback, PyRequest.fromEngine req)] := by
    intro result rest h
    cases result with
    | error e => exact List.prefix_refl _
    | ok v => exact (List.prefix_cons_inj _).mpr (h v)
  refine called_attach rfl _ fun _ => hcalled _ _ fun v => called_attach rfl _ fun isAwaitable => ?_
  cases isAwaitable with
  | false => exact hconvert v
  | true => exact called_attach rfl _ hconvert

/-- How a function comes to a value: it returns the value, or an awaitable that does. -/
theorem comesTo_eq_ok_iff {callback : F} {r : PyRequest} {w : PyVal} :
    python.comesTo callback r = .ok w ↔ python.newRequest r = .ok () ∧
      ∃ v, python.call1 callback r = .ok v ∧
        (python.isawaitable v = .ok false ∧ v = w ∨
          python.isawaitable v = .ok true ∧ python.spawnBlocking v = .ok (.ok w)) := by
  unfold Python.comesTo
  cases python.newRequest r with
  | error e => simp [bind, Except.bind]
  | ok u =>
      cases python.call1 callback r with
      | error e => simp [bind, Except.bind]
      | ok v =>
          cases hawait : python.isawaitable v with
          | error e => simp [bind, Except.bind, hawait]
          | ok isAwaitable =>
              cases isAwaitable with
              | false => simp [bind, Except.bind, hawait, pure, Except.pure]
              | true =>
                  cases hjoin : python.spawnBlocking v with
                  | error e => simp [bind, Except.bind, hawait, hjoin]
                  | ok join => simp [bind, Except.bind, hawait, hjoin]

/-- An operation that is performed: everything before it went well. -/
inductive Performed (python : Python F) (callback : F) (req : PyRequest) : PyOp F → Prop
  | cloneRef : Performed python callback req (.cloneRef callback)
  | newRequest : Performed python callback req (.newRequest req)
  | call1 : python.newRequest req = .ok () → Performed python callback req (.call1 callback req)
  | isawaitable {v : PyVal} : python.newRequest req = .ok () → python.call1 callback req = .ok v →
      Performed python callback req (.isawaitable v)
  | asyncioRun {v : PyVal} : python.newRequest req = .ok () → python.call1 callback req = .ok v →
      python.isawaitable v = .ok true → Performed python callback req (.asyncioRun v)
  | convert {v : PyVal} : python.comesTo callback req = .ok v →
      Performed python callback req (.convert v)

theorem mem_attach {A B : Type} {op op' : PyOp F} {result : Except Str A}
    {rest : A → List (PyOp F) × Run (Except Str B)} :
    op' ∈ (attach op result rest).1 ↔ op' = op ∨ ∃ a, result = .ok a ∧ op' ∈ (rest a).1 := by
  cases result with
  | error e => simp [attach]
  | ok a => simp [attach]

/-- **What is performed**: each operation, if everything before it went well; so `asyncio.run` is entered for
an awaitable only, and what is converted is what the function comes to. -/
theorem mem_handle {op : PyOp F} : op ∈ (handler.handle P python req).1 ↔
    Performed python handler.callback (PyRequest.fromEngine req) op := by
  unfold PyHandler.handle
  simp only [List.mem_cons, mem_attach]
  constructor
  · intro h
    rcases h with rfl | rfl | ⟨u, hnew, rfl | ⟨v, hcall, rfl | ⟨isAwaitable, hawait, h⟩⟩⟩
    · exact .cloneRef
    · exact .newRequest
    · exact .call1 hnew
    · exact .isawaitable hnew hcall
    · cases isAwaitable with
      | false =>
          rw [if_neg Bool.false_ne_true, List.mem_singleton] at h
          subst h
          exact .convert ((comesTo_eq_ok_iff python).mpr ⟨hnew, v, hcall, .inl ⟨hawait, rfl⟩⟩)
      | true =>
          rw [if_pos rfl, mem_attach] at h
          rcases h with rfl | ⟨w, hrun, h⟩
          · exact .asyncioRun hnew hcall hawait
          · rw [List.mem_singleton] at h
            subst h
            refine .convert ((comesTo_eq_ok_iff python).mpr ⟨hnew, v, hcall, .inr ⟨hawait, ?_⟩⟩)
            cases hjoin : python.spawnBlocking v with
            | error e =>
                rw [hjoin] at hrun
                cases hrun
            | ok join =>
                rw [hjoin] at hrun
                exact congrArg Except.ok hrun
  · intro h
    cases h with
    | cloneRef => exact .inl rfl
    | newRequest => exact .inr (.inl rfl)
    | call1 hnew => exact .inr (.inr ⟨(), hnew, .inl rfl⟩)
    | isawaitable hnew hcall => exact .inr (.inr ⟨(), hnew, .inr ⟨_, hcall, .inl rfl⟩⟩)
    | asyncioRun hnew hcall hawait =>
        refine .inr (.inr ⟨(), hnew, .inr ⟨_, hcall, .inr ⟨true, hawait, ?_⟩⟩⟩)
        rw [if_pos rfl, mem_attach]
        exact .inl rfl
    | @convert w hvalue =>
        obtain ⟨hnew, v, hcall, ⟨hawait, rfl⟩ | ⟨hawait, hrun⟩⟩ := (comesTo_eq_ok_iff python).mp hvalue
        · refine .inr (.inr ⟨(), hnew, .inr ⟨v, hcall, .inr ⟨false, hawait, ?_⟩⟩⟩)
          exact List.mem_singleton_self _
        · refine .inr (.inr ⟨(), hnew, .inr ⟨v, hcall, .inr ⟨true, hawait, ?_⟩⟩⟩)
          rw [if_pos rfl, mem_attach, hrun]
          exact .inr ⟨w, rfl, List.mem_singleton_self _⟩

/-- Once the request is made, the function is called, and once only. -/
theorem called_handle_of_newRequest
    (hnew : python.newRequest (PyRequest.fromEngine req) = .ok ()) :
    (handler.handle P python req).1.filterMap PyOp.called =
      [(handler.callback, PyRequest.fromEngine req)] := by
  have hpre := called_handle P python handler req
  have hmem : (handler.callback, PyRequest.fromEngine req) ∈
      (handler.handle P python req).1.filterMap PyOp.called :=
    List.mem_filterMap.mpr ⟨_, (mem_handle P python handler req).mpr (.call1 hnew), rfl⟩
  exact hpre.eq_of_length_le (List.length_pos_of_mem hmem)

end Handle

end RustApi
