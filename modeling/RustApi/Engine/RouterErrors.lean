import RustApi.Engine.RouterRuns

/-!
# What the errors of `add` say

`add` has two errors.  One would mean that the pattern is no pattern, the other that its place is
taken: `ErrorsMeanWhatTheySay` is that reading, over the registered calls and the patterns a router
without routes refuses.

The code chooses between the two by where it notices: the pattern set refuses with `Conflict`
whatever was attempted before, and the tree refuses everything else with `InvalidPattern`.
`addStep_error_cases` is the result of a call in these terms, and `add_errors_iff` says for which
calls both readings agree.
-/

namespace RustApi.Router

open RustStd StepRuns

variable {H : Type} {M : Matchit H} {clashes : Str → Str → Prop}

/-- A router without routes refuses the pattern of the call too. -/
def Malformed (M : Matchit H) (c : AddCall H) : Prop := ∃ e, ((new M).addStep c).1 = .error e

/-- A registered call of the same method has the pattern, or one that clashes with it. -/
def Taken (clashes : Str → Str → Prop) (M : Matchit H) (calls : List (AddCall H))
    (c : AddCall H) : Prop :=
  ∃ c' ∈ registered M calls, c'.method = c.method ∧
    (c'.pattern = c.pattern ∨ clashes c'.pattern c.pattern)

/-- `InvalidPattern` for malformed patterns, `Conflict` for well-formed ones whose place is taken. -/
def ErrorsMeanWhatTheySay (clashes : Str → Str → Prop) (M : Matchit H) (calls : List (AddCall H))
    (c : AddCall H) : Prop :=
  ((∃ s, ((after M calls).addStep c).1 = .error (.invalidPattern s)) ↔ Malformed M c) ∧
  ((∃ s, ((after M calls).addStep c).1 = .error (.conflict s)) ↔
    ¬ Malformed M c ∧ Taken clashes M calls c)

/-! ### The result of a call -/

/-- On a first attempt the tree decides, and all its errors become `InvalidPattern`. -/
theorem addStep_first {calls : List (AddCall H)} {c : AddCall H} (h : ¬ Repeated calls c) :
    ((after M calls).addStep c).1 =
      match (M.insert ((after M calls).entryOf c.method).inner c.pattern c.handler).1 with
      | .error e => .error (.invalidPattern (c.pattern ++ ": ".toList ++ e))
      | .ok () => .ok () :=
  (addStep_fresh fun hin => h ((repeated_iff calls c).mpr hin)).1

theorem malformed_iff (hM : M.RefusesExactly clashes) (c : AddCall H) :
    Malformed M c ↔ M.Malformed c.pattern := by
  have hnew := hM [] c.pattern c.handler
  have hfirst := @addStep_first H M [] c (by simp [Repeated])
  have hinner : ((after M []).entryOf c.method).inner = M.treeOf [] := rfl
  rw [hinner] at hfirst
  simp only [Matchit.inserted, traceFrom_nil, accepted_nil, List.not_mem_nil, false_and,
    exists_false, or_false] at hnew
  rw [← hnew, Malformed]
  show (∃ e, ((after M []).addStep c).1 = .error e) ↔ _
  rw [hfirst]
  cases (M.insert (M.treeOf []) c.pattern c.handler).1 with
  | error e => simp
  | ok u => simp

/-- The tree of a method refuses what is malformed and what is taken. -/
theorem insert_error_iff (hM : M.RefusesExactly clashes) (calls : List (AddCall H))
    (c : AddCall H) :
    (∃ e, (M.insert ((after M calls).entryOf c.method).inner c.pattern c.handler).1 = .error e) ↔
      Malformed M c ∨ Taken clashes M calls c := by
  obtain ⟨ops, hinner, hins, -⟩ := entryOf_inner (M := M) calls c.method
  rw [hinner, hM ops c.pattern c.handler, hins, malformed_iff hM]
  simp [Taken, and_assoc]

/-- **The three results of `add`.**  A repeat is a conflict, and of the other calls the malformed and
the taken ones are invalid. -/
theorem addStep_error_cases (hM : M.RefusesExactly clashes) (calls : List (AddCall H))
    (c : AddCall H) :
    (Repeated calls c ∧ ∃ s, ((after M calls).addStep c).1 = .error (.conflict s)) ∨
    (¬ Repeated calls c ∧ (Malformed M c ∨ Taken clashes M calls c) ∧
      ∃ s, ((after M calls).addStep c).1 = .error (.invalidPattern s)) ∨
    (¬ Repeated calls c ∧ ¬ (Malformed M c ∨ Taken clashes M calls c) ∧
      ((after M calls).addStep c).1 = .ok ()) := by
  by_cases hrep : Repeated calls c
  · exact .inl ⟨hrep, _, addStep_repeated_error hrep⟩
  · right
    rw [← insert_error_iff hM, addStep_first hrep]
    cases (M.insert ((after M calls).entryOf c.method).inner c.pattern c.handler).1 with
    | error e => exact .inl ⟨hrep, ⟨e, rfl⟩, _, rfl⟩
    | ok u => exact .inr ⟨hrep, by simp, rfl⟩

/-! ### Repeats of well-formed patterns -/

theorem Taken.snoc {calls : List (AddCall H)} {c : AddCall H} (h : Taken clashes M calls c)
    (d : AddCall H) : Taken clashes M (calls ++ [d]) c := by
  obtain ⟨c', hc', hsame⟩ := h
  refine ⟨c', ?_, hsame⟩
  rw [registered, trace_snoc, accepted_append]
  exact List.mem_append_left _ hc'

/-- A well-formed pattern that was attempted is taken: either the attempt was registered, or what it
clashed with was. -/
theorem taken_of_repeated (hM : M.RefusesExactly clashes) {calls : List (AddCall H)}
    {c : AddCall H} (hrep : Repeated calls c) (hwell : ¬ Malformed M c) :
    Taken clashes M calls c := by
  induction calls using List.reverseRecOn with
  | nil => simp [Repeated] at hrep
  | append_singleton calls d ih =>
      by_cases hbefore : Repeated calls c
      · exact (ih hbefore).snoc d
      · obtain ⟨hm, hp⟩ := (exists_mem_snoc.mp hrep).resolve_left hbefore
        -- the first attempt at this pattern
        have hfirst : ¬ Repeated calls d := by
          rw [Repeated, hm, hp]
          exact hbefore
        have hwell' : ¬ Malformed M d := by
          rw [malformed_iff hM, hp, ← malformed_iff hM]
          exact hwell
        rcases addStep_error_cases hM calls d with ⟨h, -⟩ | ⟨-, h, -⟩ | ⟨-, -, hok⟩
        · exact absurd h hfirst
        · obtain ⟨t, ht, htm, htp⟩ := h.resolve_left hwell'
          exact Taken.snoc ⟨t, ht, htm.trans hm, by rwa [hp] at htp⟩ d
        · refine ⟨d, ?_, hm, .inl hp⟩
          rw [registered, trace_snoc, accepted_append, hok, accepted_singleton_ok]
          exact List.mem_append_right _ (List.mem_singleton_self _)

/-! ### When the errors mean what they say -/

/-- **The errors mean what they say on repeats of well-formed patterns, and on first attempts that are
malformed or clash with nothing.**  A malformed pattern attempted again is called a conflict, and a
well-formed one that clashes is called invalid. -/
theorem add_errors_iff (hM : M.RefusesExactly clashes) (calls : List (AddCall H)) (c : AddCall H) :
    ErrorsMeanWhatTheySay clashes M calls c ↔
      (Repeated calls c → ¬ Malformed M c) ∧
      (¬ Repeated calls c → Malformed M c ∨ ¬ Taken clashes M calls c) := by
  unfold ErrorsMeanWhatTheySay
  rcases addStep_error_cases hM calls c with ⟨hrep, s, he⟩ | ⟨hrep, herr, s, he⟩ | ⟨hrep, hno, hok⟩
  · have hinv : ¬ ∃ s, ((after M calls).addStep c).1 = .error (.invalidPattern s) := by
      rw [he]
      simp
    have hconf : ∃ s, ((after M calls).addStep c).1 = .error (.conflict s) := ⟨s, he⟩
    constructor
    · intro h
      exact ⟨fun _ => (h.2.mp hconf).1, fun hfirst => absurd hrep hfirst⟩
    · intro h
      have hwell := h.1 hrep
      exact ⟨iff_of_false hinv hwell, iff_of_true hconf ⟨hwell, taken_of_repeated hM hrep hwell⟩⟩
  · have hinv : ∃ s, ((after M calls).addStep c).1 = .error (.invalidPattern s) := ⟨s, he⟩
    have hconf : ¬ ∃ s, ((after M calls).addStep c).1 = .error (.conflict s) := by
      rw [he]
      simp
    constructor
    · intro h
      exact ⟨fun h => absurd h hrep, fun _ => .inl (h.1.mp hinv)⟩
    · intro h
      have hmal : Malformed M c := (h.2 hrep).elim id fun hfree => herr.resolve_right hfree
      exact ⟨iff_of_true hinv hmal, iff_of_false hconf fun hw => hw.1 hmal⟩
  · rw [not_or] at hno
    have hinv : ¬ ∃ s, ((after M calls).addStep c).1 = .error (.invalidPattern s) := by
      rw [hok]
      simp
    have hconf : ¬ ∃ s, ((after M calls).addStep c).1 = .error (.conflict s) := by
      rw [hok]
      simp
    exact iff_of_true ⟨iff_of_false hinv hno.1, iff_of_false hconf fun hw => hno.2 hw.2⟩
      ⟨fun _ => hno.1, fun _ => .inr hno.2⟩

def getA (pattern : Str) : AddCall ℕ := ⟨⟨"GET".toList⟩, pattern, 0⟩

theorem add_errors_iff_repeat :
    ErrorsMeanWhatTheySay Route.Clashes (routeList ℕ) [getA "/a/{x}".toList] (getA "/a/{x}".toList) ↔
      (Repeated [getA "/a/{x}".toList] (getA "/a/{x}".toList) →
        ¬ Malformed (routeList ℕ) (getA "/a/{x}".toList)) ∧
      (¬ Repeated [getA "/a/{x}".toList] (getA "/a/{x}".toList) →
        Malformed (routeList ℕ) (getA "/a/{x}".toList) ∨
          ¬ Taken Route.Clashes (routeList ℕ) [getA "/a/{x}".toList] (getA "/a/{x}".toList)) :=
  add_errors_iff (routeList_refusesExactly ℕ) [getA "/a/{x}".toList] (getA "/a/{x}".toList)

/-- `/a/{y}` after `/a/{x}` is called an invalid pattern, and a second `/{id` a conflict. -/
theorem add_errors_mislead :
    (routeList ℕ).RefusesExactly Route.Clashes ∧
    ¬ ErrorsMeanWhatTheySay Route.Clashes (routeList ℕ) [getA "/a/{x}".toList]
      (getA "/a/{y}".toList) ∧
    ¬ ErrorsMeanWhatTheySay Route.Clashes (routeList ℕ) [malformed] malformed := by
  refine ⟨routeList_refusesExactly ℕ, ?_, ?_⟩
  · intro h
    have hinv : ((after (routeList ℕ) [getA "/a/{x}".toList]).addStep (getA "/a/{y}".toList)).1 =
        .error (.invalidPattern "/a/{y}: conflicting route".toList) := by decide
    obtain ⟨e, he⟩ := h.1.mp ⟨_, hinv⟩
    have hok : ((new (routeList ℕ)).addStep (getA "/a/{y}".toList)).1 = .ok () := by decide
    rw [hok] at he
    cases he
  · intro h
    have hconf : ((after (routeList ℕ) [malformed]).addStep malformed).1 =
        .error (.conflict "GET /\x7bid".toList) := by decide
    exact (h.2.mp ⟨_, hconf⟩).1 ⟨.invalidPattern "/\x7bid: malformed route".toList, by decide⟩

end RustApi.Router
