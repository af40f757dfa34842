import Mathlib.Data.Finset.Insert
import RustApi.Engine.Http
import RustApi.Engine.Matchit
import RustApi.Lib.HashMap

/-!
# The router

One `matchit` tree for each HTTP method, the set of patterns handed to that method, and one map over
all methods from a pattern to the methods it was registered under.  `add` writes the map first, then
the pattern set, then the tree; `matchRoute` asks the tree of the request's method and, when that has
no answer, decides between 404 and 405 with `matchesAnyMethod` over the keys of the map.

Handlers are values of an arbitrary type `H`: the router only stores and returns them.
-/

namespace RustApi

open RustStd StepRuns

/-- Errors raised by route registration or matching. -/
inductive RouterError
  | invalidPattern (s : Str)
  | conflict (s : Str)
  | methodNotAllowed
  | notFound
  deriving DecidableEq, Repr

/-- The `Display` text of an error. -/
def RouterError.display : RouterError → Str
  | .invalidPattern s => "invalid route pattern: ".toList ++ s
  | .conflict s => "route conflict: ".toList ++ s
  | .methodNotAllowed => "method not allowed".toList
  | .notFound => "not found".toList

/-- The routes of one method: its tree, and every pattern handed to it. -/
structure MethodRoutes {H : Type} (M : Matchit H) where
  inner : M.Tree
  patterns : Finset Str

/-- `MethodRoutes::default`. -/
def MethodRoutes.default {H : Type} (M : Matchit H) : MethodRoutes M := ⟨M.new, ∅⟩

structure Router {H : Type} (M : Matchit H) where
  routes : HashMap Method (MethodRoutes M)
  allPatterns : HashMap Str (List Method)

/-- The matched handler and the extracted path parameters, or why no handler matched. -/
abbrev MatchResult (H : Type) := Except RouterError (H × HashMap Str Str)

/-- Split both texts at `/`; equally many segments, each a `{…}` segment of the pattern or equal. -/
def matchesAnyMethod (pattern path : Str) : Bool :=
  let patSegs := pattern.splitOn '/'
  let pathSegs := path.splitOn '/'
  if patSegs.length ≠ pathSegs.length then false
  else (patSegs.zip pathSegs).all fun e =>
    (e.1.head? = some '{' && e.1.getLast? = some '}') || e.1 = e.2

namespace Router

variable {H : Type} {M : Matchit H}

/-- `Router::new`. -/
def new (M : Matchit H) : Router M := ⟨HashMap.empty, HashMap.empty⟩

/-- Register a handler for `(method, pattern)`. -/
def add (r : Router M) (method : Method) (pattern : Str) (handler : H) :
    Except RouterError Unit × Router M :=
  -- 405-detection bookkeeping
  let methodsForPattern := (r.allPatterns.get pattern).getD []
  let allPatterns := r.allPatterns.insert pattern
    (if method ∈ methodsForPattern then methodsForPattern else methodsForPattern ++ [method])
  let entry := (r.routes.get method).getD (MethodRoutes.default M)
  if pattern ∈ entry.patterns then
    (.error (.conflict (method.asStr ++ " ".toList ++ pattern)),
      ⟨r.routes.insert method entry, allPatterns⟩)
  else
    -- the pattern set is written before the tree has accepted the pattern
    let inserted := M.insert entry.inner pattern handler
    let routes := r.routes.insert method ⟨inserted.2, insert pattern entry.patterns⟩
    match inserted.1 with
    | .error e => (.error (.invalidPattern (pattern ++ ": ".toList ++ e)), ⟨routes, allPatterns⟩)
    | .ok () => (.ok (), ⟨routes, allPatterns⟩)

/-- Match a request against the tree of its method. -/
def matchRoute (r : Router M) (method : Method) (path : Str) : MatchResult H :=
  match r.routes.get method with
  | some routes =>
      match M.atPath routes.inner path with
      | some (value, params) => .ok (value, HashMap.collect params)
      | none =>
          if ∃ p ∈ r.allPatterns.keys, matchesAnyMethod p path = true
          then .error .methodNotAllowed else .error .notFound
  | none =>
      if ∃ p ∈ r.allPatterns.keys, matchesAnyMethod p path = true
      then .error .methodNotAllowed else .error .notFound

/-- Number of registered routes across all methods. -/
def len (r : Router M) : ℕ := r.routes.valueSum fun e => e.patterns.card

def isEmpty (r : Router M) : Bool := r.len = 0

end Router

/-! ### Histories of `add` calls -/

/-- One call `add(method, pattern, handler)`. -/
structure AddCall (H : Type) where
  method : Method
  pattern : Str
  handler : H
  deriving DecidableEq

namespace Router

variable {H : Type} {M : Matchit H}

def addStep (r : Router M) (c : AddCall H) : Except RouterError Unit × Router M :=
  r.add c.method c.pattern c.handler

/-- The router after a list of `add` calls on a new one. -/
def after (M : Matchit H) (calls : List (AddCall H)) : Router M := runFrom addStep (new M) calls

/-- The calls with their results. -/
def trace (M : Matchit H) (calls : List (AddCall H)) : List (AddCall H × Except RouterError Unit) :=
  traceFrom addStep (new M) calls

/-- The calls that returned `Ok`. -/
def registered (M : Matchit H) (calls : List (AddCall H)) : List (AddCall H) :=
  accepted (trace M calls)

@[simp] theorem after_nil : after M [] = new M := rfl

theorem after_snoc (calls : List (AddCall H)) (c : AddCall H) :
    after M (calls ++ [c]) = ((after M calls).addStep c).2 := runFrom_snoc _ _ _ _

theorem trace_snoc (calls : List (AddCall H)) (c : AddCall H) :
    trace M (calls ++ [c]) = trace M calls ++ [(c, ((after M calls).addStep c).1)] :=
  traceFrom_snoc _ _ _ _

/-! ### What one `add` does -/

/-- The entry `add` works on: the method's own, or a fresh one. -/
def entryOf (r : Router M) (method : Method) : MethodRoutes M :=
  (r.routes.get method).getD (MethodRoutes.default M)

/-- The pattern was handed to the method before: nothing but `Conflict` happens. -/
theorem addStep_repeated {r : Router M} {c : AddCall H}
    (h : c.pattern ∈ (r.entryOf c.method).patterns) :
    (r.addStep c).1 = .error (.conflict (c.method.asStr ++ " ".toList ++ c.pattern)) ∧
      (r.addStep c).2.routes = r.routes.insert c.method (r.entryOf c.method) := by
  have h' : c.pattern ∈ ((r.routes.get c.method).getD (MethodRoutes.default M)).patterns := h
  simp only [addStep, add, if_pos h', entryOf, and_self]

/-- The pattern is new to the method: it joins the set, and the tree decides. -/
theorem addStep_fresh {r : Router M} {c : AddCall H}
    (h : c.pattern ∉ (r.entryOf c.method).patterns) :
    (r.addStep c).1 =
        (match (M.insert (r.entryOf c.method).inner c.pattern c.handler).1 with
        | .error e => .error (.invalidPattern (c.pattern ++ ": ".toList ++ e))
        | .ok () => .ok ()) ∧
      (r.addStep c).2.routes = r.routes.insert c.method
        ⟨(M.insert (r.entryOf c.method).inner c.pattern c.handler).2,
          insert c.pattern (r.entryOf c.method).patterns⟩ := by
  have h' : c.pattern ∉ ((r.routes.get c.method).getD (MethodRoutes.default M)).patterns := h
  simp only [addStep, add, if_neg h', entryOf]
  split <;> exact ⟨rfl, rfl⟩

/-- Whatever `add` returns, the pattern now lists the method. -/
theorem addStep_allPatterns (r : Router M) (c : AddCall H) :
    (r.addStep c).2.allPatterns = r.allPatterns.insert c.pattern
      (if c.method ∈ (r.allPatterns.get c.pattern).getD []
        then (r.allPatterns.get c.pattern).getD []
        else (r.allPatterns.get c.pattern).getD [] ++ [c.method]) := by
  by_cases h : c.pattern ∈ ((r.routes.get c.method).getD (MethodRoutes.default M)).patterns
  · simp only [addStep, add, if_pos h]
  · simp only [addStep, add, if_neg h]
    cases (M.insert ((r.routes.get c.method).getD (MethodRoutes.default M)).inner c.pattern
      c.handler).1 <;> rfl

end Router

end RustApi
