import RustApi.Engine.RouterHistory

/-!
# 200, 405 or 404: the answer against the registered routes

The purpose of `matchRoute` can be said without trees or bookkeeping: a request is found when a
registered pattern of its method matches the path, its method is not allowed when only other methods
have one, and there is nothing at the path otherwise.  That is `intended`, over the table of
registered calls.

The answer of the code is read off the same history (`matchRoute_ok_iff`,
`matchRoute_notAllowed_iff`, `matchRoute_notFound_iff`): it finds what it should find, but decides
between 405 and 404 by whether some pattern *handed to* `add` fits the path segment by segment.
`matchRoute_verdict_iff` says exactly when the two agree, and the two halves follow: when a 405
is backed by another method, and when a 404 really means that no method has a route.
-/

namespace RustApi.Router

open RustStd StepRuns

variable {H : Type} {M : Matchit H} {known : Str → Prop}

/-! ### The intended answers -/

/-- The three kinds of answer to a request. -/
inductive Verdict
  | found
  | methodNotAllowed
  | notFound
  deriving DecidableEq, Repr

/-- The registered pattern of one of the calls matches the path. -/
def Serves (table : List (AddCall H)) (path : Str) : Prop :=
  ∃ c ∈ table, Route.Matches c.pattern path

/-- One of the calls is for the method and its registered pattern matches the path. -/
def ServesMethod (table : List (AddCall H)) (m : Method) (path : Str) : Prop :=
  ∃ c ∈ table, c.method = m ∧ Route.Matches c.pattern path

/-- One of the calls names a pattern that fits the path segment by segment. -/
def Suggests (calls : List (AddCall H)) (path : Str) : Prop :=
  ∃ c ∈ calls, matchesAnyMethod c.pattern path = true

instance (table : List (AddCall H)) (path : Str) : Decidable (Serves table path) :=
  inferInstanceAs (Decidable (∃ c ∈ table, Route.Matches c.pattern path))

instance (table : List (AddCall H)) (m : Method) (path : Str) :
    Decidable (ServesMethod table m path) :=
  inferInstanceAs (Decidable (∃ c ∈ table, c.method = m ∧ Route.Matches c.pattern path))

instance (calls : List (AddCall H)) (path : Str) : Decidable (Suggests calls path) :=
  inferInstanceAs (Decidable (∃ c ∈ calls, matchesAnyMethod c.pattern path = true))

theorem ServesMethod.serves {table : List (AddCall H)} {m : Method} {path : Str}
    (h : ServesMethod table m path) : Serves table path := by
  obtain ⟨c, hc, -, hmatch⟩ := h
  exact ⟨c, hc, hmatch⟩

theorem Serves.exists_method {table : List (AddCall H)} {path : Str} (h : Serves table path) :
    ∃ m, ServesMethod table m path := by
  obtain ⟨c, hc, hmatch⟩ := h
  exact ⟨c.method, c, hc, rfl, hmatch⟩

/-- What a router is for, over a table of registered routes. -/
def intended (table : List (AddCall H)) (m : Method) (path : Str) : Verdict :=
  if ServesMethod table m path then .found
  else if Serves table path then .methodNotAllowed
  else .notFound

/-- The kind of a result.  The two registration errors never come out of `matchRoute`. -/
def verdict : MatchResult H → Verdict
  | .ok _ => .found
  | .error .methodNotAllowed => .methodNotAllowed
  | .error _ => .notFound

/-! ### The answers the code gives -/

/-- What the tree of the method answers, if it has one. -/
def treeAnswer (r : Router M) (m : Method) (path : Str) : Option (H × List (Str × Str)) :=
  (r.routes.get m).bind fun e => M.atPath e.inner path

/-- `matchRoute` with its two equal branches for 404 and 405 merged. -/
theorem matchRoute_eq (r : Router M) (m : Method) (path : Str) :
    r.matchRoute m path =
      match r.treeAnswer m path with
      | some (value, params) => .ok (value, HashMap.collect params)
      | none =>
          if ∃ p ∈ r.allPatterns.keys, matchesAnyMethod p path = true
          then .error .methodNotAllowed else .error .notFound := by
  unfold matchRoute treeAnswer
  cases r.routes.get m with
  | none => rfl
  | some e => rfl

/-- The request is found when the tree of its method answers, with the parameters as a map. -/
theorem matchRoute_eq_ok_iff (r : Router M) (m : Method) (path : Str)
    (found : H × HashMap Str Str) :
    r.matchRoute m path = .ok found ↔
      ∃ params, r.treeAnswer m path = some (found.1, params) ∧ found.2 = HashMap.collect params := by
  rw [matchRoute_eq]
  cases r.treeAnswer m path with
  | some answer =>
      obtain ⟨value, params⟩ := answer
      simp only [Except.ok.injEq, Option.some.injEq, Prod.mk.injEq]
      constructor
      · intro h
        subst h
        exact ⟨params, ⟨rfl, rfl⟩, rfl⟩
      · rintro ⟨params', ⟨hvalue, rfl⟩, hparams⟩
        rw [hvalue, ← hparams]
  | none =>
      simp only [reduceCtorEq, false_and, exists_false, iff_false]
      split <;> simp

/-- A failed match is a 405 or a 404. -/
theorem matchRoute_error_cases (r : Router M) (m : Method) (path : Str) :
    (∃ found, r.matchRoute m path = .ok found) ∨
      r.matchRoute m path = .error .methodNotAllowed ∨ r.matchRoute m path = .error .notFound := by
  rw [matchRoute_eq]
  cases r.treeAnswer m path with
  | some answer => exact .inl ⟨_, rfl⟩
  | none =>
      by_cases h : ∃ p ∈ r.allPatterns.keys, matchesAnyMethod p path = true
      · exact .inr (.inl (if_pos h))
      · exact .inr (.inr (if_neg h))

/-- What is found is the answer of a tree that holds nothing but registered calls of the method, and to
which nothing was handed but what was handed to `add`. -/
theorem treeAnswer_eq_some {calls : List (AddCall H)} {m : Method} {path : Str}
    {answer : H × List (Str × Str)} (h : (after M calls).treeAnswer m path = some answer) :
    ∃ ops, M.atPath (M.treeOf ops) path = some answer ∧ (∀ o ∈ ops, ∃ c ∈ calls, c.pattern = o.1) ∧
      ∀ o ∈ M.inserted ops, ∃ c ∈ registered M calls, c.method = m ∧ (c.pattern, c.handler) = o := by
  obtain ⟨e, he, hat⟩ := Option.bind_eq_some_iff.mp h
  obtain ⟨ops, hinner, hins, hfrom⟩ := entryOf_inner (M := M) calls m
  have hentry : (after M calls).entryOf m = e := by
    rw [entryOf, he, Option.getD_some]
  rw [hentry] at hinner
  rw [hinner] at hat
  refine ⟨ops, hat, hfrom, ?_⟩
  intro o ho
  rw [hins] at ho
  obtain ⟨c, hc, hco⟩ := List.mem_map.mp ho
  rw [List.mem_filter, decide_eq_true_eq] at hc
  exact ⟨c, hc.1, hc.2, hco⟩

/-- Patterns that are known stay known in the trees. -/
theorem known_of_handed {calls : List (AddCall H)} (hknown : ∀ c ∈ calls, known c.pattern)
    {ops : List (Str × H)} (h : ∀ o ∈ ops, ∃ c ∈ calls, c.pattern = o.1) : ∀ o ∈ ops, known o.1 := by
  intro o ho
  obtain ⟨c, hc, hpattern⟩ := h o ho
  rw [← hpattern]
  exact hknown c hc

/-- **A matched handler was registered for the method.** -/
theorem matchRoute_handler (hM : M.AtReturnsInserted) {calls : List (AddCall H)} {m : Method}
    {path : Str} {found : H × HashMap Str Str}
    (h : (after M calls).matchRoute m path = .ok found) :
    ∃ c ∈ registered M calls, c.method = m ∧ c.handler = found.1 := by
  obtain ⟨params, hanswer, -⟩ := (matchRoute_eq_ok_iff _ m path found).mp h
  obtain ⟨ops, hat, -, hops⟩ := treeAnswer_eq_some hanswer
  obtain ⟨o, ho, hv⟩ := hM ops path found.1 params hat
  obtain ⟨c, hc, hm, rfl⟩ := hops o ho
  exact ⟨c, hc, hm, hv⟩

/-- The tree asked for a method answers exactly when a registered pattern matches. -/
theorem treeAnswer_isSome_iff (hM : M.AtFindsMatches known) {calls : List (AddCall H)}
    (hknown : ∀ c ∈ calls, known c.pattern) (m : Method) (path : Str) :
    ((after M calls).treeAnswer m path).isSome ↔ ServesMethod (registered M calls) m path := by
  obtain ⟨ops, hinner, hins, hfrom⟩ := entryOf_inner (M := M) calls m
  have hserve : (∃ o ∈ M.inserted ops, Route.Matches o.1 path) ↔
      ServesMethod (registered M calls) m path := by
    rw [hins]
    simp [ServesMethod, and_assoc]
  rw [← hserve, ← hM ops (known_of_handed hknown hfrom) path, ← hinner, entryOf, treeAnswer]
  cases hget : (after M calls).routes.get m with
  | some e => rfl
  | none =>
      -- a method without routes: its tree would be the new one, which answers nothing
      show Option.isSome none = true ↔ (M.atPath M.new path).isSome = true
      rw [hM.atPath_new path]

theorem exists_keys_iff_suggests (calls : List (AddCall H)) (path : Str) :
    (∃ p ∈ (after M calls).allPatterns.keys, matchesAnyMethod p path = true) ↔
      Suggests calls path := by
  simp only [mem_allPatterns_keys, Suggests]
  constructor
  · intro h
    obtain ⟨p, ⟨c, hc, hp⟩, hfit⟩ := h
    exact ⟨c, hc, by rw [hp]; exact hfit⟩
  · intro h
    obtain ⟨c, hc, hfit⟩ := h
    exact ⟨c.pattern, ⟨c, hc, rfl⟩, hfit⟩

/-- **The three answers, in terms of the history.** -/
theorem matchRoute_cases (hM : M.AtFindsMatches known) {calls : List (AddCall H)}
    (hknown : ∀ c ∈ calls, known c.pattern) (m : Method) (path : Str) :
    (ServesMethod (registered M calls) m path ∧
        ∃ value params, (after M calls).matchRoute m path = .ok (value, params)) ∨
      (¬ ServesMethod (registered M calls) m path ∧ Suggests calls path ∧
        (after M calls).matchRoute m path = .error .methodNotAllowed) ∨
      (¬ ServesMethod (registered M calls) m path ∧ ¬ Suggests calls path ∧
        (after M calls).matchRoute m path = .error .notFound) := by
  have hserve := treeAnswer_isSome_iff hM hknown m path
  rw [matchRoute_eq]
  cases hat : (after M calls).treeAnswer m path with
  | some found =>
      rw [hat] at hserve
      exact .inl ⟨hserve.mp rfl, found.1, HashMap.collect found.2, rfl⟩
  | none =>
      rw [hat] at hserve
      have hno : ¬ ServesMethod (registered M calls) m path := fun h => by
        simpa using hserve.mpr h
      by_cases hsug : Suggests calls path
      · refine .inr (.inl ⟨hno, hsug, ?_⟩)
        exact if_pos ((exists_keys_iff_suggests calls path).mpr hsug)
      · refine .inr (.inr ⟨hno, hsug, ?_⟩)
        exact if_neg fun h => hsug ((exists_keys_iff_suggests calls path).mp h)

theorem matchRoute_ok_iff (hM : M.AtFindsMatches known) {calls : List (AddCall H)}
    (hknown : ∀ c ∈ calls, known c.pattern) (m : Method) (path : Str) :
    (∃ value params, (after M calls).matchRoute m path = .ok (value, params)) ↔
      ServesMethod (registered M calls) m path := by
  rcases matchRoute_cases hM hknown m path with ⟨hs, hok⟩ | ⟨hs, -, he⟩ | ⟨hs, -, he⟩
  · exact iff_of_true hok hs
  · exact iff_of_false (by simp [he]) hs
  · exact iff_of_false (by simp [he]) hs

theorem matchRoute_notAllowed_iff (hM : M.AtFindsMatches known) {calls : List (AddCall H)}
    (hknown : ∀ c ∈ calls, known c.pattern) (m : Method) (path : Str) :
    (after M calls).matchRoute m path = .error .methodNotAllowed ↔
      ¬ ServesMethod (registered M calls) m path ∧ Suggests calls path := by
  rcases matchRoute_cases hM hknown m path with ⟨hs, v, p, hok⟩ | ⟨hs, hsug, he⟩ | ⟨hs, hsug, he⟩
  · exact iff_of_false (by simp [hok]) fun h => h.1 hs
  · exact iff_of_true he ⟨hs, hsug⟩
  · exact iff_of_false (by simp [he]) fun h => hsug h.2

theorem matchRoute_notFound_iff (hM : M.AtFindsMatches known) {calls : List (AddCall H)}
    (hknown : ∀ c ∈ calls, known c.pattern) (m : Method) (path : Str) :
    (after M calls).matchRoute m path = .error .notFound ↔
      ¬ ServesMethod (registered M calls) m path ∧ ¬ Suggests calls path := by
  rcases matchRoute_cases hM hknown m path with ⟨hs, v, p, hok⟩ | ⟨hs, hsug, he⟩ | ⟨hs, hsug, he⟩
  · exact iff_of_false (by simp [hok]) fun h => h.1 hs
  · exact iff_of_false (by simp [he]) fun h => h.2 hsug
  · exact iff_of_true he ⟨hs, hsug⟩

/-- **When the router answers as intended.**  Either the request is found, or the patterns handed to
`add` suggest a route exactly when a registered one matches. -/
theorem matchRoute_verdict_iff (hM : M.AtFindsMatches known) {calls : List (AddCall H)}
    (hknown : ∀ c ∈ calls, known c.pattern) (m : Method) (path : Str) :
    verdict ((after M calls).matchRoute m path) = intended (registered M calls) m path ↔
      ServesMethod (registered M calls) m path ∨
        (Suggests calls path ↔ Serves (registered M calls) path) := by
  rcases matchRoute_cases hM hknown m path with ⟨hs, v, p, hok⟩ | ⟨hs, hsug, he⟩ | ⟨hs, hsug, he⟩
  · simp [hok, verdict, intended, hs]
  · by_cases hany : Serves (registered M calls) path
    · simp [he, verdict, intended, hs, hsug, hany]
    · simp [he, verdict, intended, hs, hsug, hany]
  · by_cases hany : Serves (registered M calls) path
    · simp [he, verdict, intended, hs, hsug, hany]
    · simp [he, verdict, intended, hs, hsug, hany]

/-! ### When a 405 is backed by another method -/

/-- **A 405 can be trusted exactly when a fitting pattern comes with a matching route.**  If some
pattern handed to `add` fits the path segment by segment, a registered one has to match the path. -/
theorem methodNotAllowed_sound_iff (hM : M.AtFindsMatches known) (calls : List (AddCall H))
    (hknown : ∀ c ∈ calls, known c.pattern) (m : Method) (path : Str) :
    ((after M calls).matchRoute m path = .error .methodNotAllowed →
      ∃ m', m' ≠ m ∧ ∃ value params, (after M calls).matchRoute m' path = .ok (value, params)) ↔
    ((∃ c ∈ calls, matchesAnyMethod c.pattern path = true) →
      ∃ c ∈ registered M calls, Route.Matches c.pattern path) := by
  simp only [matchRoute_ok_iff hM hknown, matchRoute_notAllowed_iff hM hknown]
  constructor
  · intro h hsug
    by_cases hs : ServesMethod (registered M calls) m path
    · exact hs.serves
    · obtain ⟨m', -, hm'⟩ := h ⟨hs, hsug⟩
      exact hm'.serves
  · intro h hno
    obtain ⟨m', hm'⟩ := Serves.exists_method (h hno.2)
    refine ⟨m', ?_, hm'⟩
    intro heq
    rw [heq] at hm'
    exact hno.1 hm'

def usersById : List (AddCall ℕ) := [⟨⟨"GET".toList⟩, "/users/{id}".toList, 0⟩]

theorem methodNotAllowed_sound_iff_users :
    ((after (routeList ℕ) usersById).matchRoute ⟨"DELETE".toList⟩ "/users/42".toList =
        .error .methodNotAllowed →
      ∃ m', m' ≠ ⟨"DELETE".toList⟩ ∧ ∃ value params,
        (after (routeList ℕ) usersById).matchRoute m' "/users/42".toList = .ok (value, params)) ↔
    ((∃ c ∈ usersById, matchesAnyMethod c.pattern "/users/42".toList = true) →
      ∃ c ∈ registered (routeList ℕ) usersById, Route.Matches c.pattern "/users/42".toList) :=
  methodNotAllowed_sound_iff (routeList_atFindsMatches ℕ Route.Any) usersById (fun _ _ => trivial)
    ⟨"DELETE".toList⟩ _

/-- A parameter facing an empty segment: `DELETE /users/` is answered 405 although `GET /users/`
is not served either. -/
theorem methodNotAllowed_unsound_empty_segment :
    (routeList ℕ).AtFindsMatches Route.Any ∧
    ¬ ((after (routeList ℕ) usersById).matchRoute ⟨"DELETE".toList⟩ "/users/".toList =
        .error .methodNotAllowed →
      ∃ m', m' ≠ ⟨"DELETE".toList⟩ ∧ ∃ value params,
        (after (routeList ℕ) usersById).matchRoute m' "/users/".toList = .ok (value, params)) := by
  have hM := routeList_atFindsMatches ℕ Route.Any
  have hknown : ∀ c ∈ usersById, Route.Any c.pattern := fun _ _ => trivial
  refine ⟨hM, ?_⟩
  intro h
  have hno : ¬ Serves (registered (routeList ℕ) usersById) "/users/".toList := by decide
  have h405 := (matchRoute_notAllowed_iff hM hknown ⟨"DELETE".toList⟩ "/users/".toList).mpr
    ⟨fun hs => hno hs.serves, by decide⟩
  obtain ⟨m', -, hok⟩ := h h405
  exact hno ((matchRoute_ok_iff hM hknown m' _).mp hok).serves

/-! ### When a 404 means that no method has a route -/

/-- **A 404 can be trusted exactly when a matching route comes with a fitting pattern.**  If a
registered pattern matches the path, one of the request's own method has to, or some pattern handed
to `add` has to fit the path segment by segment. -/
theorem notFound_complete_iff (hM : M.AtFindsMatches known) (calls : List (AddCall H))
    (hknown : ∀ c ∈ calls, known c.pattern) (m : Method) (path : Str) :
    ((∃ m' value params, (after M calls).matchRoute m' path = .ok (value, params)) →
      (after M calls).matchRoute m path ≠ .error .notFound) ↔
    ((∃ c ∈ registered M calls, Route.Matches c.pattern path) →
      (∃ c ∈ registered M calls, c.method = m ∧ Route.Matches c.pattern path) ∨
        ∃ c ∈ calls, matchesAnyMethod c.pattern path = true) := by
  simp only [matchRoute_ok_iff hM hknown, ne_eq, matchRoute_notFound_iff hM hknown]
  constructor
  · intro h hany
    by_contra hcon
    rw [not_or] at hcon
    exact h (Serves.exists_method hany) hcon
  · intro h hany hno
    obtain ⟨m', hm'⟩ := hany
    rcases h hm'.serves with hs | hsug
    · exact hno.1 hs
    · exact hno.2 hsug

theorem notFound_complete_iff_users :
    ((∃ m' value params, (after (routeList ℕ) usersById).matchRoute m' "/users/42".toList =
        .ok (value, params)) →
      (after (routeList ℕ) usersById).matchRoute ⟨"DELETE".toList⟩ "/users/42".toList ≠
        .error .notFound) ↔
    ((∃ c ∈ registered (routeList ℕ) usersById, Route.Matches c.pattern "/users/42".toList) →
      (∃ c ∈ registered (routeList ℕ) usersById, c.method = ⟨"DELETE".toList⟩ ∧
          Route.Matches c.pattern "/users/42".toList) ∨
        ∃ c ∈ usersById, matchesAnyMethod c.pattern "/users/42".toList = true) :=
  notFound_complete_iff (routeList_atFindsMatches ℕ Route.Any) usersById (fun _ _ => trivial)
    ⟨"DELETE".toList⟩ _

def filesBelow : List (AddCall ℕ) := [⟨⟨"GET".toList⟩, "/files/{*rest}".toList, 0⟩]

/-- A catch-all over two segments: `GET /files/a/b` is served, `DELETE /files/a/b` is a 404. -/
theorem notFound_incomplete_catchAll :
    (routeList ℕ).AtFindsMatches Route.Any ∧
    ¬ ((∃ m' value params, (after (routeList ℕ) filesBelow).matchRoute m' "/files/a/b".toList =
        .ok (value, params)) →
      (after (routeList ℕ) filesBelow).matchRoute ⟨"DELETE".toList⟩ "/files/a/b".toList ≠
        .error .notFound) := by
  have hM := routeList_atFindsMatches ℕ Route.Any
  have hknown : ∀ c ∈ filesBelow, Route.Any c.pattern := fun _ _ => trivial
  refine ⟨hM, ?_⟩
  intro h
  have hget := (matchRoute_ok_iff hM hknown ⟨"GET".toList⟩ "/files/a/b".toList).mpr (by decide)
  exact h ⟨_, hget⟩ ((matchRoute_notFound_iff hM hknown ⟨"DELETE".toList⟩
    "/files/a/b".toList).mpr ⟨by decide, by decide⟩)

end RustApi.Router
