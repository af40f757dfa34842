import Mathlib.Data.List.Basic
import Mathlib.Tactic.Common
import RustApi.Lib.StepRuns
import RustApi.Lib.Text

/-!
# `matchit`, the radix tree behind the router

`matchit` is not part of the repository.  The router uses three of its functions (`Router::new`,
`insert`, `at`), so a tree implementation is a parameter `M : Matchit T`, and what the router relies
on is stated as named propositions about the trees that `insert` calls can build.  What is assumed of `at`
is assumed for a class `known` of routes: of every tree to which only such routes have been handed.  A
router whose patterns are all known needs no more, and the class may be that of all routes.

## The route syntax

A route is text in which `{name}` is a parameter, `{*name}` a catch-all allowed only at the end, and
`{{`, `}}` stand for literal braces.  A segment holds one hole at most, which may have static text
before it, and a parameter also behind it.  `Route.parse` reads that syntax into pieces.  A parameter
takes a non-empty slash-free run, a catch-all a non-empty rest: `Fills pieces vals path` says that the
values `vals` put in the holes of `pieces` spell `path`, and `Route.Matches` is the resulting language.

`routeList` is a reference implementation, a plain list of routes.  It satisfies every proposition
stated here for the class of all routes, so none of them is contradictory, and it is what concrete runs
compute with.
-/

namespace RustApi

open RustStd StepRuns

/-! ### The interface -/

/-- The functions of `matchit::Router<T>` that are called.  `insert` takes `&mut self`, so it answers
and leaves a tree behind in either case; an error is represented by the text it displays. -/
structure Matchit (T : Type) where
  Tree : Type
  new : Tree
  insert : Tree → Str → T → Except Str Unit × Tree
  atPath : Tree → Str → Option (T × List (Str × Str))

namespace Matchit

variable {T : Type} (M : Matchit T)

/-- `insert` as a step: the input is the route and its value. -/
def insertStep (t : M.Tree) (o : Str × T) : Except Str Unit × M.Tree := M.insert t o.1 o.2

/-- The tree after a list of `insert` calls on a new one. -/
def treeOf (ops : List (Str × T)) : M.Tree := runFrom M.insertStep M.new ops

/-- The `insert` calls among `ops` that succeeded. -/
def inserted (ops : List (Str × T)) : List (Str × T) := accepted (traceFrom M.insertStep M.new ops)

theorem treeOf_snoc (ops : List (Str × T)) (o : Str × T) :
    M.treeOf (ops ++ [o]) = (M.insert (M.treeOf ops) o.1 o.2).2 := runFrom_snoc _ _ _ _

theorem inserted_snoc_ok {ops : List (Str × T)} {o : Str × T}
    (h : (M.insert (M.treeOf ops) o.1 o.2).1 = .ok ()) :
    M.inserted (ops ++ [o]) = M.inserted ops ++ [o] := by
  have hout : (M.insertStep (runFrom M.insertStep M.new ops) o).1 = .ok () := h
  rw [inserted, traceFrom_snoc, accepted_append, hout]
  rfl

theorem inserted_snoc_error {ops : List (Str × T)} {o : Str × T} {e : Str}
    (h : (M.insert (M.treeOf ops) o.1 o.2).1 = .error e) :
    M.inserted (ops ++ [o]) = M.inserted ops := by
  have hout : (M.insertStep (runFrom M.insertStep M.new ops) o).1 = .error e := h
  rw [inserted, traceFrom_snoc, accepted_append, hout, accepted_singleton_error, List.append_nil]
  rfl

end Matchit

/-! ### Routes -/

/-- One piece of a route. -/
inductive Piece
  | lit (c : Char)
  | param (name : Str)
  | catchAll (name : Str)
  deriving DecidableEq, Repr

namespace Route

/-- Undo `{{` and `}}`; the flag marks the braces that were escaped. -/
def unescape : Str → List (Char × Bool)
  | '{' :: '{' :: s => ('{', true) :: unescape s
  | '}' :: '}' :: s => ('}', true) :: unescape s
  | c :: s => (c, false) :: unescape s
  | [] => []

/-- The piece a closed brace pair stands for, `rest` being what follows it. -/
def hole (name : Str) (rest : List (Char × Bool)) : Option Piece :=
  match name with
  | [] => none
  | '*' :: name =>
      if name ≠ [] ∧ '*' ∉ name ∧ '/' ∉ name ∧ rest = [] then some (.catchAll name) else none
  | name => if '*' ∉ name ∧ '/' ∉ name then some (.param name) else none

/-- Read the pieces.  The first argument says that the segment has a hole already, and the second is the
name read so far when a brace is open. -/
def pieces : Bool → Option Str → List (Char × Bool) → Option (List Piece)
  | _, none, [] => some []
  | held, none, ('{', false) :: s => if held then none else pieces held (some []) s
  | _, none, ('}', false) :: _ => none
  | held, none, (c, _) :: s => (pieces (held && c != '/') none s).map (.lit c :: ·)
  | _, some _, [] => none
  | _, some name, ('}', false) :: s =>
      match hole name s with
      | some p => (pieces true none s).map (p :: ·)
      | none => none
  | held, some name, (c, _) :: s => pieces held (some (name ++ [c])) s

/-- The pieces of a route, or `none` where it is malformed. -/
def parse (route : Str) : Option (List Piece) := pieces false none (unescape route)

end Route

/-- Putting the values into the holes, in order, spells the path. -/
inductive Fills : List Piece → List Str → Str → Prop
  | nil : Fills [] [] []
  | lit {c : Char} {ps : List Piece} {vs : List Str} {s : Str} :
      Fills ps vs s → Fills (.lit c :: ps) vs (c :: s)
  | param {name v : Str} {ps : List Piece} {vs : List Str} {s : Str} :
      v ≠ [] → '/' ∉ v → Fills ps vs s → Fills (.param name :: ps) (v :: vs) (v ++ s)
  | catchAll {name v : Str} {ps : List Piece} {vs : List Str} {s : Str} :
      v ≠ [] → Fills ps vs s → Fills (.catchAll name :: ps) (v :: vs) (v ++ s)

/-- The route is well formed and some values in its holes spell the path. -/
def Route.Matches (route path : Str) : Prop :=
  ∃ ps vs, Route.parse route = some ps ∧ Fills ps vs path

/-- The names of the holes, in order. -/
def holeNames : List Piece → List Str
  | [] => []
  | .lit _ :: ps => holeNames ps
  | .param name :: ps => name :: holeNames ps
  | .catchAll name :: ps => name :: holeNames ps

/-- What a tree reports when the route matches the path: each hole's name with the part of the path
that fills it, in order. -/
def Route.Captures (route path : Str) (params : List (Str × Str)) : Prop :=
  ∃ ps vs, Route.parse route = some ps ∧ Fills ps vs path ∧ params = (holeNames ps).zip vs

/-! ### What the router relies on -/

/-- The class of all routes. -/
def Route.Any (_ : Str) : Prop := True

/-- `at` succeeds exactly when some inserted route matches, in every tree to which only known routes have
been handed. -/
def Matchit.AtFindsMatches {T : Type} (M : Matchit T) (known : Str → Prop) : Prop :=
  ∀ ops, (∀ o ∈ ops, known o.1) → ∀ path, (M.atPath (M.treeOf ops) path).isSome ↔
    ∃ o ∈ M.inserted ops, Route.Matches o.1 path

theorem Matchit.AtFindsMatches.atPath_new {T : Type} {M : Matchit T} {known : Str → Prop}
    (h : M.AtFindsMatches known) (path : Str) : M.atPath M.new path = none := by
  have hnone : ¬ ∃ o ∈ M.inserted [], Route.Matches o.1 path := by
    simp [Matchit.inserted]
  rw [← Option.not_isSome_iff_eq_none]
  exact fun hsome => hnone ((h [] (by simp) path).mp hsome)

/-- `at` returns only values that were inserted. -/
def Matchit.AtReturnsInserted {T : Type} (M : Matchit T) : Prop :=
  ∀ ops path v params, M.atPath (M.treeOf ops) path = some (v, params) →
    ∃ o ∈ M.inserted ops, o.2 = v

/-- A failed `insert` does not change what `at` answers. -/
def Matchit.FailedInsertKeeps {T : Type} (M : Matchit T) : Prop :=
  ∀ ops o e, (M.insert (M.treeOf ops) o.1 o.2).1 = .error e → ∀ path,
    M.atPath (M.treeOf (ops ++ [o])) path = M.atPath (M.treeOf ops) path

/-- `at` returns a value that was inserted, and with it what its route captures, in every tree to which
only known routes have been handed. -/
def Matchit.AtReportsCaptures {T : Type} (M : Matchit T) (known : Str → Prop) : Prop :=
  ∀ ops, (∀ o ∈ ops, known o.1) → ∀ path v params,
    M.atPath (M.treeOf ops) path = some (v, params) →
      ∃ o ∈ M.inserted ops, o.2 = v ∧ Route.Captures o.1 path params

/-- The route is refused even by a tree without routes. -/
def Matchit.Malformed {T : Type} (M : Matchit T) (route : Str) : Prop :=
  ∃ v e, (M.insert M.new route v).1 = .error e

/-- `insert` refuses malformed routes, and of the others exactly those that are inserted already or
that an inserted route clashes with. -/
def Matchit.RefusesExactly {T : Type} (M : Matchit T) (clashes : Str → Str → Prop) : Prop :=
  ∀ ops route v, (∃ e, (M.insert (M.treeOf ops) route v).1 = .error e) ↔
    M.Malformed route ∨ ∃ o ∈ M.inserted ops, o.1 = route ∨ clashes o.1 route

/-! ### A reference implementation -/

/-- Values for the holes of `ps` that spell the path, if there are any. -/
def capture : List Piece → Str → Option (List Str)
  | [], [] => some []
  | [], _ :: _ => none
  | .lit _ :: _, [] => none
  | .lit c :: ps, d :: s => if d = c then capture ps s else none
  | .param _ :: ps, s => (List.range (s.length + 1)).findSome? fun n =>
      if s.take n ≠ [] ∧ '/' ∉ s.take n then (capture ps (s.drop n)).map (s.take n :: ·) else none
  | .catchAll _ :: ps, s => (List.range (s.length + 1)).findSome? fun n =>
      if s.take n ≠ [] then (capture ps (s.drop n)).map (s.take n :: ·) else none

section Cuts

variable (P : Str → Prop) [DecidablePred P] (f : Str → Option (List Str))

/-- What the search over the cuts of a text finds is a value in front and what `f` finds behind. -/
theorem exists_cut_of_findSome {s : Str} {vs : List Str}
    (h : ((List.range (s.length + 1)).findSome? fun n =>
      if P (s.take n) then (f (s.drop n)).map (s.take n :: ·) else none) = some vs) :
    ∃ v t ws, s = v ++ t ∧ P v ∧ f t = some ws ∧ vs = v :: ws := by
  obtain ⟨n, -, hn⟩ := List.exists_of_findSome?_eq_some h
  by_cases hv : P (s.take n)
  · rw [if_pos hv] at hn
    obtain ⟨ws, hws, rfl⟩ := Option.map_eq_some_iff.mp hn
    exact ⟨s.take n, s.drop n, ws, (List.take_append_drop n s).symm, hv, hws, rfl⟩
  · rw [if_neg hv] at hn
    cases hn

/-- The search finds something when some cut does. -/
theorem findSome_isSome_of_cut {v t : Str} (hv : P v) (h : (f t).isSome) :
    ((List.range ((v ++ t).length + 1)).findSome? fun n =>
      if P ((v ++ t).take n) then (f ((v ++ t).drop n)).map ((v ++ t).take n :: ·)
      else none).isSome := by
  rw [List.findSome?_isSome_iff]
  have hlen : v.length < (v ++ t).length + 1 := by
    rw [List.length_append]
    omega
  refine ⟨v.length, List.mem_range.mpr hlen, ?_⟩
  rw [List.take_left, List.drop_left, if_pos hv, Option.isSome_map]
  exact h

end Cuts

theorem fills_of_capture (ps : List Piece) (s : Str) (vs : List Str) (h : capture ps s = some vs) :
    Fills ps vs s := by
  induction ps generalizing s vs with
  | nil =>
      cases s with
      | nil =>
          simp only [capture, Option.some.injEq] at h
          subst h
          exact .nil
      | cons d s => simp [capture] at h
  | cons p ps ih =>
      cases p with
      | lit c =>
          cases s with
          | nil => simp [capture] at h
          | cons d s =>
              simp only [capture] at h
              split at h
              · next hd =>
                subst hd
                exact .lit (ih s vs h)
              · simp at h
      | param name =>
          rw [capture] at h
          obtain ⟨v, t, ws, rfl, hv, hws, rfl⟩ :=
            exists_cut_of_findSome (fun v => v ≠ [] ∧ '/' ∉ v) (capture ps) h
          exact .param hv.1 hv.2 (ih t ws hws)
      | catchAll name =>
          rw [capture] at h
          obtain ⟨v, t, ws, rfl, hv, hws, rfl⟩ :=
            exists_cut_of_findSome (fun v => v ≠ []) (capture ps) h
          exact .catchAll hv (ih t ws hws)

theorem capture_isSome_of_fills {ps : List Piece} {vs : List Str} {s : Str} (h : Fills ps vs s) :
    (capture ps s).isSome := by
  induction h with
  | nil => rfl
  | lit _ ih =>
      rw [capture, if_pos rfl]
      exact ih
  | param hv hslash _ ih =>
      rw [capture]
      exact findSome_isSome_of_cut (fun v => v ≠ [] ∧ '/' ∉ v) _ ⟨hv, hslash⟩ ih
  | catchAll hv _ ih =>
      rw [capture]
      exact findSome_isSome_of_cut (fun v => v ≠ []) _ hv ih

theorem matches_iff_capture (route path : Str) :
    Route.Matches route path ↔ ∃ ps, Route.parse route = some ps ∧ (capture ps path).isSome := by
  constructor
  · rintro ⟨ps, vs, hps, hfill⟩
    exact ⟨ps, hps, capture_isSome_of_fills hfill⟩
  · rintro ⟨ps, hps, hsome⟩
    obtain ⟨vs, hvs⟩ := Option.isSome_iff_exists.mp hsome
    exact ⟨ps, vs, hps, fills_of_capture ps path vs hvs⟩

instance (route path : Str) : Decidable (Route.Matches route path) :=
  decidable_of_iff (((Route.parse route).map fun ps => (capture ps path).isSome) = some true) <| by
    rw [matches_iff_capture, Option.map_eq_some_iff]

example : Route.Matches "/files/{name}.json".toList "/files/a.json".toList := by decide

/-- Two routes clash when they differ in the names of their holes only, and when one has a catch-all
where the other has any hole, after text and parameters that they share. -/
def clash : List Piece → List Piece → Bool
  | [], [] => true
  | .lit c :: ps, .lit d :: qs => c == d && clash ps qs
  | .param _ :: ps, .param _ :: qs => clash ps qs
  | .param _ :: _, .catchAll _ :: _ => true
  | .catchAll _ :: _, .param _ :: _ => true
  | .catchAll _ :: _, .catchAll _ :: _ => true
  | _, _ => false

theorem clash_self (ps : List Piece) : clash ps ps = true := by
  induction ps with
  | nil => rfl
  | cons p ps ih =>
      cases p with
      | lit c => rw [clash, beq_self_eq_true, Bool.true_and, ih]
      | param name => exact ih
      | catchAll name => rfl

theorem clash_comm (ps qs : List Piece) : clash ps qs = clash qs ps := by
  induction ps generalizing qs with
  | nil =>
      cases qs with
      | nil => rfl
      | cons q qs => cases q <;> rfl
  | cons p ps ih =>
      cases qs with
      | nil => cases p <;> rfl
      | cons q qs =>
          cases p with
          | lit c =>
              cases q with
              | lit d => rw [clash, clash, ih, BEq.comm]
              | _ => rfl
          | param name =>
              cases q with
              | param name' => exact ih qs
              | _ => rfl
          | catchAll name => cases q <;> rfl

def Route.Clashes (route route' : Str) : Prop :=
  ∃ ps ps', Route.parse route = some ps ∧ Route.parse route' = some ps' ∧ clash ps ps' = true

theorem Route.Clashes.symm {route route' : Str} (h : Route.Clashes route route') :
    Route.Clashes route' route := by
  obtain ⟨ps, qs, hps, hqs, hclash⟩ := h
  exact ⟨qs, ps, hqs, hps, by rw [clash_comm, hclash]⟩

/-- `insert` on a plain list of routes: refuse what is malformed or clashes, else append. -/
def routeInsert {T : Type} (t : List (List Piece × T)) (route : Str) (v : T) :
    Except Str Unit × List (List Piece × T) :=
  match Route.parse route with
  | none => (.error "malformed route".toList, t)
  | some ps =>
      if t.any fun e => clash e.1 ps
      then (.error "conflicting route".toList, t)
      else (.ok (), t ++ [(ps, v)])

/-- The static text in front of the next slash or hole. -/
def segmentText : List Piece → Str
  | .lit c :: ps => if c = '/' then [] else c :: segmentText ps
  | _ => []

/-- The order in which routes are tried: text before a parameter, a parameter before a catch-all, and of
two parameters the one with more text behind it. -/
def triedBefore : List Piece → List Piece → Bool
  | .lit _ :: ps, .lit _ :: qs => triedBefore ps qs
  | .lit _ :: _, _ => true
  | .param _ :: ps, .param _ :: qs =>
      (segmentText qs).length < (segmentText ps).length ||
        (segmentText ps).length == (segmentText qs).length && triedBefore ps qs
  | .param _ :: _, .catchAll _ :: _ => true
  | _, _ => false

/-- The routes that match, each with its value and what fills its holes. -/
def matching {T : Type} (t : List (List Piece × T)) (path : Str) :
    List (List Piece × T × List Str) :=
  t.filterMap fun e => (capture e.1 path).map fun vs => (e.1, e.2, vs)

/-- The first to be tried. -/
def firstTried {A : Type} : List (List Piece × A) → Option (List Piece × A)
  | [] => none
  | e :: es =>
      match firstTried es with
      | none => some e
      | some e' => if triedBefore e'.1 e.1 then some e' else some e

/-- `at` on a plain list of routes: of those that match the first to be tried. -/
def routeAt {T : Type} (t : List (List Piece × T)) (path : Str) : Option (T × List (Str × Str)) :=
  (firstTried (matching t path)).map fun e => (e.2.1, (holeNames e.1).zip e.2.2)

theorem mem_of_firstTried {A : Type} {es : List (List Piece × A)} {e : List Piece × A}
    (h : firstTried es = some e) : e ∈ es := by
  induction es with
  | nil => cases h
  | cons d es ih =>
      unfold firstTried at h
      cases hrest : firstTried es with
      | none =>
          rw [hrest] at h
          rw [← Option.some.inj h]
          exact List.mem_cons_self
      | some d' =>
          simp only [hrest] at h
          split at h
          · exact List.mem_cons_of_mem _ (ih (hrest.trans h))
          · rw [← Option.some.inj h]
            exact List.mem_cons_self

theorem firstTried_isSome_iff {A : Type} {es : List (List Piece × A)} :
    (firstTried es).isSome ↔ es ≠ [] := by
  cases es with
  | nil => simp [firstTried]
  | cons e es =>
      unfold firstTried
      cases firstTried es with
      | none => simp
      | some e' =>
          dsimp only
          split <;> simp

/-- What matches is in the list, with values that fill its holes. -/
theorem mem_matching {T : Type} {t : List (List Piece × T)} {path : Str} {ps : List Piece} {v : T}
    {vs : List Str} : (ps, v, vs) ∈ matching t path ↔ (ps, v) ∈ t ∧ capture ps path = some vs := by
  rw [matching, List.mem_filterMap]
  constructor
  · intro h
    obtain ⟨⟨qs, w⟩, he, hcap⟩ := h
    obtain ⟨ws, hws, heq⟩ := Option.map_eq_some_iff.mp hcap
    cases heq
    exact ⟨he, hws⟩
  · intro h
    exact ⟨(ps, v), h.1, by rw [h.2, Option.map_some]⟩

/-- An answer is that of a route in the list. -/
theorem routeAt_eq_some {T : Type} {t : List (List Piece × T)} {path : Str} {v : T}
    {params : List (Str × Str)} (h : routeAt t path = some (v, params)) :
    ∃ ps vs, (ps, v) ∈ t ∧ capture ps path = some vs ∧ params = (holeNames ps).zip vs := by
  obtain ⟨⟨ps, w, vs⟩, hfirst, heq⟩ := Option.map_eq_some_iff.mp h
  obtain ⟨hmem, hcap⟩ := mem_matching.mp (mem_of_firstTried hfirst)
  obtain ⟨rfl, rfl⟩ := Prod.mk.inj heq
  exact ⟨ps, vs, hmem, hcap, rfl⟩

/-- The inserted routes, in order of insertion. -/
def routeList (T : Type) : Matchit T where
  Tree := List (List Piece × T)
  new := []
  insert := routeInsert
  atPath := routeAt

/-- The list `routeList` has built after `ops`. -/
def routesOf {T : Type} (ops : List (Str × T)) : List (List Piece × T) := (routeList T).treeOf ops

/-- A failed `routeInsert` leaves the list alone, a successful one appends the parsed route. -/
theorem routeInsert_cases {T : Type} (t : List (List Piece × T)) (route : Str) (v : T) :
    (∃ e, routeInsert t route v = (.error e, t)) ∨
      ∃ ps, Route.parse route = some ps ∧ routeInsert t route v = (.ok (), t ++ [(ps, v)]) := by
  unfold routeInsert
  split
  · exact .inl ⟨_, rfl⟩
  · next ps hps =>
    split
    · exact .inl ⟨_, rfl⟩
    · exact .inr ⟨ps, hps, rfl⟩

/-- The list holds the pieces and the value of every successful `insert`. -/
theorem routesOf_eq {T : Type} (ops : List (Str × T)) :
    (((routeList T).inserted ops).map fun o => (Route.parse o.1, o.2)) =
      (routesOf ops).map fun e => (some e.1, e.2) := by
  induction ops using List.reverseRecOn with
  | nil => rfl
  | append_singleton ops o ih =>
      have htree : routesOf (ops ++ [o]) = (routeInsert (routesOf ops) o.1 o.2).2 :=
        (routeList T).treeOf_snoc ops o
      rcases routeInsert_cases (routesOf ops) o.1 o.2 with ⟨e, he⟩ | ⟨ps, hps, hok⟩
      · have hout : ((routeList T).insert ((routeList T).treeOf ops) o.1 o.2).1 = .error e :=
          congrArg Prod.fst he
        rw [Matchit.inserted_snoc_error _ hout, htree, he]
        exact ih
      · have hout : ((routeList T).insert ((routeList T).treeOf ops) o.1 o.2).1 = .ok () :=
          congrArg Prod.fst hok
        rw [Matchit.inserted_snoc_ok _ hout, htree, hok]
        simp only [List.map_append, ih, List.map_cons, List.map_nil, hps]

theorem mem_routesOf {T : Type} {ops : List (Str × T)} {ps : List Piece} {v : T} :
    (ps, v) ∈ routesOf ops ↔
      ∃ o ∈ (routeList T).inserted ops, Route.parse o.1 = some ps ∧ o.2 = v := by
  have hmem : (ps, v) ∈ routesOf ops ↔ (some ps, v) ∈ (routesOf ops).map fun e => (some e.1, e.2) := by
    constructor
    · intro h
      exact List.mem_map_of_mem (f := fun e : List Piece × T => (some e.1, e.2)) h
    · intro h
      obtain ⟨⟨qs, w⟩, he, heq⟩ := List.mem_map.mp h
      simp only [Prod.mk.injEq, Option.some.injEq] at heq
      obtain ⟨rfl, rfl⟩ := heq
      exact he
  rw [hmem, ← routesOf_eq]
  simp only [List.mem_map, Prod.mk.injEq]

theorem routeList_atFindsMatches (T : Type) (known : Str → Prop) :
    (routeList T).AtFindsMatches known := by
  intro ops _ path
  have hat : ((routeList T).atPath ((routeList T).treeOf ops) path).isSome ↔
      matching (routesOf ops) path ≠ [] := by
    show (routeAt (routesOf ops) path).isSome ↔ _
    rw [routeAt, Option.isSome_map, firstTried_isSome_iff]
  rw [hat, ne_eq, List.eq_nil_iff_forall_not_mem, not_forall_not]
  constructor
  · rintro ⟨⟨ps, v, vs⟩, he⟩
    obtain ⟨hmem, hcap⟩ := mem_matching.mp he
    obtain ⟨o, ho, hparse, -⟩ := mem_routesOf.mp hmem
    exact ⟨o, ho, ps, vs, hparse, fills_of_capture ps path vs hcap⟩
  · rintro ⟨o, ho, hmatch⟩
    obtain ⟨ps, hparse, hcap⟩ := (matches_iff_capture o.1 path).mp hmatch
    obtain ⟨vs, hvs⟩ := Option.isSome_iff_exists.mp hcap
    exact ⟨(ps, o.2, vs), mem_matching.mpr ⟨mem_routesOf.mpr ⟨o, ho, hparse, rfl⟩, hvs⟩⟩

theorem routeList_atReturnsInserted (T : Type) : (routeList T).AtReturnsInserted := by
  intro ops path v params h
  obtain ⟨ps, vs, hmem, -, -⟩ := routeAt_eq_some h
  obtain ⟨o, ho, -, hv⟩ := mem_routesOf.mp (show (ps, v) ∈ routesOf ops from hmem)
  exact ⟨o, ho, hv⟩

theorem routeList_failedInsertKeeps (T : Type) : (routeList T).FailedInsertKeeps := by
  intro ops o e h path
  rcases routeInsert_cases (routesOf ops) o.1 o.2 with ⟨e', he⟩ | ⟨ps, -, hok⟩
  · rw [Matchit.treeOf_snoc]
    exact congrArg (fun r : Except Str Unit × List (List Piece × T) => routeAt r.2 path) he
  · have hout : ((routeList T).insert ((routeList T).treeOf ops) o.1 o.2).1 = .ok () :=
      congrArg Prod.fst hok
    rw [hout] at h
    cases h

theorem routeList_atReportsCaptures (T : Type) (known : Str → Prop) :
    (routeList T).AtReportsCaptures known := by
  intro ops _ path v params h
  obtain ⟨ps, vs, hmem, hcap, hparams⟩ := routeAt_eq_some h
  obtain ⟨o, ho, hps, hv⟩ := mem_routesOf.mp (show (ps, v) ∈ routesOf ops from hmem)
  exact ⟨o, ho, hv, ps, vs, hps, fills_of_capture ps path vs hcap, hparams⟩

/-- `routeInsert` fails for a malformed route, and for one that a route in the list clashes with. -/
theorem routeInsert_error_iff {T : Type} (t : List (List Piece × T)) (route : Str) (v : T) :
    (∃ e, (routeInsert t route v).1 = .error e) ↔ ∀ ps, Route.parse route = some ps →
      ∃ e ∈ t, clash e.1 ps = true := by
  unfold routeInsert
  cases Route.parse route with
  | none => simp
  | some ps =>
      dsimp only
      by_cases hany : t.any fun e => clash e.1 ps
      · rw [if_pos hany]
        simpa using hany
      · rw [if_neg hany]
        simpa using hany

theorem routeList_malformed_iff {T : Type} (v : T) (route : Str) :
    (routeList T).Malformed route ↔ Route.parse route = none := by
  constructor
  · intro h
    obtain ⟨w, herr⟩ := h
    rw [Option.eq_none_iff_forall_ne_some]
    intro ps hps
    obtain ⟨e, he, -⟩ := (routeInsert_error_iff [] route w).mp herr ps hps
    cases he
  · intro h
    refine ⟨v, (routeInsert_error_iff [] route v).mpr ?_⟩
    intro ps hps
    rw [h] at hps
    cases hps

theorem routeList_refusesExactly (T : Type) : (routeList T).RefusesExactly Route.Clashes := by
  intro ops route v
  have herr := routeInsert_error_iff (routesOf ops) route v
  rw [routeList_malformed_iff v]
  refine herr.trans ?_
  cases hparse : Route.parse route with
  | none => simp
  | some ps =>
      simp only [Option.some.injEq, forall_eq', reduceCtorEq, false_or]
      constructor
      · rintro ⟨⟨qs, w⟩, he, hclash⟩
        obtain ⟨o, ho, hqs, -⟩ := mem_routesOf.mp he
        exact ⟨o, ho, .inr ⟨qs, ps, hqs, hparse, hclash⟩⟩
      · rintro ⟨o, ho, heq | ⟨qs, ps', hqs, hps', hclash⟩⟩
        · exact ⟨(ps, o.2), mem_routesOf.mpr ⟨o, ho, by rw [heq, hparse], rfl⟩, clash_self ps⟩
        · rw [hparse, Option.some.injEq] at hps'
          rw [hps']
          exact ⟨(qs, o.2), mem_routesOf.mpr ⟨o, ho, hqs, rfl⟩, hclash⟩

end RustApi
