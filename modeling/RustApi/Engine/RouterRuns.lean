import RustApi.Engine.RouterAnswers
import RustApi.Engine.RouterIndexes

/-!
# Two routers side by side

What a caller can learn about a router is the answer to every request, `len`, and the results of all
further `add` calls.  `ObsEq` says that two routers agree on all of it.  Two comparisons are made
here.

* A router before and after an `add` that failed.  Repeating an attempt is refused by the pattern set
  and leaves the very same router (`addStep_repeated_state`); a first attempt is recorded before the
  tree is asked, so `len` counts attempts (`len_eq_card`) and a pattern the tree refuses stays counted.
  `failed_add_iff` draws the line between the two.
* The routers of two interleavings of the same calls.  Methods do not see each other's routes, and the
  shared map is read through its keys only, so `interleavings_agree` holds of all interleavings.
-/

namespace RustApi.Router

open RustStd StepRuns

variable {H : Type} {M : Matchit H}

/-- Nothing a caller can do tells the two routers apart. -/
structure ObsEq (r r' : Router M) : Prop where
  matchRoute : ∀ m path, r.matchRoute m path = r'.matchRoute m path
  len : r.len = r'.len
  later : ∀ more, traceFrom addStep r more = traceFrom addStep r' more

theorem ObsEq.refl (r : Router M) : ObsEq r r := ⟨fun _ _ => rfl, rfl, fun _ => rfl⟩

/-- The method and pattern of the call were handed to `add` before, whatever came of it. -/
def Repeated (calls : List (AddCall H)) (c : AddCall H) : Prop :=
  ∃ c' ∈ calls, c'.method = c.method ∧ c'.pattern = c.pattern

instance (calls : List (AddCall H)) (c : AddCall H) : Decidable (Repeated calls c) :=
  inferInstanceAs (Decidable (∃ c' ∈ calls, c'.method = c.method ∧ c'.pattern = c.pattern))

theorem repeated_iff (calls : List (AddCall H)) (c : AddCall H) :
    Repeated calls c ↔ c.pattern ∈ ((after M calls).entryOf c.method).patterns :=
  (mem_entryOf_patterns calls c.method c.pattern).symm

/-! ### Repeating an attempt -/

/-- **A repeated attempt changes nothing at all.** -/
theorem addStep_repeated_state {calls : List (AddCall H)} {c : AddCall H} (h : Repeated calls c) :
    ((after M calls).addStep c).2 = after M calls := by
  have hroutes : ((after M calls).addStep c).2.routes = (after M calls).routes := by
    rw [(addStep_repeated ((repeated_iff calls c).mp h)).2]
    apply HashMap.insert_get
    obtain ⟨c', hc', hm, -⟩ := h
    obtain ⟨e, he⟩ := Option.isSome_iff_exists.mp
      ((routes_get_isSome (M := M) calls c.method).mpr ⟨c', hc', hm⟩)
    rw [entryOf, he, Option.getD_some]
  have hpats : ((after M calls).addStep c).2.allPatterns = (after M calls).allPatterns := by
    have hmem := (listed_iff_mem _ _ _).mp ((listed_after (M := M) calls c.method c.pattern).mpr h)
    rw [addStep_allPatterns, if_pos hmem]
    apply HashMap.insert_get
    cases hget : (after M calls).allPatterns.get c.pattern with
    | none => simp [hget] at hmem
    | some ms => rfl
  calc ((after M calls).addStep c).2
      = ⟨((after M calls).addStep c).2.routes, ((after M calls).addStep c).2.allPatterns⟩ := rfl
    _ = ⟨(after M calls).routes, (after M calls).allPatterns⟩ := by rw [hroutes, hpats]
    _ = after M calls := rfl

/-- A repeated attempt is refused. -/
theorem addStep_repeated_error {calls : List (AddCall H)} {c : AddCall H} (h : Repeated calls c) :
    ((after M calls).addStep c).1 =
      .error (.conflict (c.method.asStr ++ " ".toList ++ c.pattern)) :=
  (addStep_repeated ((repeated_iff calls c).mp h)).1

/-! ### What `len` counts -/

/-- A first attempt is counted, accepted or not. -/
theorem len_addStep_fresh {r : Router M} {c : AddCall H}
    (h : c.pattern ∉ (r.entryOf c.method).patterns) : (r.addStep c).2.len = r.len + 1 := by
  rw [len_addStep, if_neg h]

/-- **`len` counts the different attempts**, among them those the tree refused. -/
theorem len_eq_card (calls : List (AddCall H)) :
    (after M calls).len = (calls.map fun c => (c.method, c.pattern)).toFinset.card := by
  induction calls using List.reverseRecOn with
  | nil => rfl
  | append_singleton calls c ih =>
      have hset : ((calls ++ [c]).map fun c => (c.method, c.pattern)).toFinset =
          insert (c.method, c.pattern) (calls.map fun c => (c.method, c.pattern)).toFinset := by
        ext e
        simp [eq_comm]
      have hmem : (c.method, c.pattern) ∈ (calls.map fun c => (c.method, c.pattern)).toFinset ↔
          Repeated calls c := by
        simp [Repeated]
      rw [after_snoc, hset]
      by_cases h : Repeated calls c
      · rw [addStep_repeated_state h, Finset.insert_eq_of_mem (hmem.mpr h), ih]
      · rw [len_addStep_fresh fun hin => h ((repeated_iff calls c).mpr hin),
          Finset.card_insert_of_notMem fun hin => h (hmem.mp hin), ih]

theorem len_eq_zero_iff (calls : List (AddCall H)) : (after M calls).len = 0 ↔ calls = [] := by
  rw [len_eq_card, Finset.card_eq_zero, List.toFinset_eq_empty_iff, List.map_eq_nil_iff]

/-- Every call among `calls` that failed was a repeat of an earlier one. -/
def FailuresRepeat (M : Matchit H) (calls : List (AddCall H)) : Prop :=
  ∀ before c, before ++ [c] <+: calls → (∃ e, ((after M before).addStep c).1 = .error e) →
    Repeated before c

theorem failuresRepeat_nil : FailuresRepeat M [] := by
  intro before c hpre
  simp at hpre

theorem failuresRepeat_snoc (calls : List (AddCall H)) (c : AddCall H) :
    FailuresRepeat M (calls ++ [c]) ↔ FailuresRepeat M calls ∧
      ((∃ e, ((after M calls).addStep c).1 = .error e) → Repeated calls c) := by
  constructor
  · intro h
    exact ⟨fun before c' hpre => h before c' (hpre.trans (List.prefix_append _ _)),
      h calls c (List.prefix_refl _)⟩
  · intro h before c' hpre herr
    rcases List.prefix_concat_iff.mp hpre with heq | hshort
    · obtain ⟨rfl, rfl⟩ := List.append_singleton_inj.mp heq
      exact h.2 herr
    · exact h.1 before c' hshort herr

/-- One call more: what happens to `len` and to the number of registered calls. -/
theorem len_registered_snoc (calls : List (AddCall H)) (c : AddCall H) :
    (Repeated calls c ∧ (after M (calls ++ [c])).len = (after M calls).len ∧
        registered M (calls ++ [c]) = registered M calls) ∨
      (¬ Repeated calls c ∧ (after M (calls ++ [c])).len = (after M calls).len + 1 ∧
        ((∃ e, ((after M calls).addStep c).1 = .error e) ∧
            registered M (calls ++ [c]) = registered M calls ∨
          ((after M calls).addStep c).1 = .ok () ∧
            registered M (calls ++ [c]) = registered M calls ++ [c])) := by
  have hreg : registered M (calls ++ [c]) =
      registered M calls ++ accepted [(c, ((after M calls).addStep c).1)] := by
    rw [registered, registered, trace_snoc, accepted_append]
  rw [hreg, after_snoc]
  by_cases h : Repeated calls c
  · refine .inl ⟨h, ?_, ?_⟩
    · rw [addStep_repeated_state h]
    · rw [addStep_repeated_error h, accepted_singleton_error, List.append_nil]
  · refine .inr ⟨h, len_addStep_fresh fun hin => h ((repeated_iff calls c).mpr hin), ?_⟩
    cases hout : ((after M calls).addStep c).1 with
    | error e => exact .inl ⟨⟨e, rfl⟩, by rw [accepted_singleton_error, List.append_nil]⟩
    | ok u => exact .inr ⟨rfl, by rw [accepted_singleton_ok]⟩

theorem length_registered_le (calls : List (AddCall H)) :
    (registered M calls).length ≤ (after M calls).len := by
  induction calls using List.reverseRecOn with
  | nil => exact Nat.le_refl 0
  | append_singleton calls c ih =>
      rcases len_registered_snoc (M := M) calls c with
        ⟨-, hlen, hreg⟩ | ⟨-, hlen, ⟨-, hreg⟩ | ⟨-, hreg⟩⟩
      · rw [hlen, hreg]
        exact ih
      · rw [hlen, hreg]
        omega
      · rw [hlen, hreg, List.length_append, List.length_singleton]
        omega

/-- Where everything is registered, `len` counts it. -/
theorem len_of_registered {calls : List (AddCall H)} (h : registered M calls = calls) :
    (after M calls).len = calls.length := by
  apply Nat.le_antisymm
  · rw [len_eq_card]
    exact (List.toFinset_card_le _).trans (by rw [List.length_map])
  · have hle := length_registered_le (M := M) calls
    rw [h] at hle
    exact hle

/-- `len` is the number of registered calls exactly as long as no first attempt was refused. -/
theorem len_eq_length_registered_iff (calls : List (AddCall H)) :
    (after M calls).len = (registered M calls).length ↔ FailuresRepeat M calls := by
  induction calls using List.reverseRecOn with
  | nil => exact iff_of_true rfl failuresRepeat_nil
  | append_singleton calls c ih =>
      have hle := length_registered_le (M := M) calls
      rw [failuresRepeat_snoc, ← ih]
      rcases len_registered_snoc (M := M) calls c with
        ⟨hrep, hlen, hreg⟩ | ⟨hfresh, hlen, ⟨herr, hreg⟩ | ⟨hok, hreg⟩⟩
      · rw [hlen, hreg]
        exact ⟨fun h => ⟨h, fun _ => hrep⟩, fun h => h.1⟩
      · rw [hlen, hreg]
        exact iff_of_false (by omega) fun h => hfresh (h.2 herr)
      · rw [hlen, hreg, List.length_append, List.length_singleton, hok]
        constructor
        · intro h
          refine ⟨by omega, ?_⟩
          intro herr
          obtain ⟨e, he⟩ := herr
          cases he
        · intro h
          omega

/-! ### When a failed `add` leaves no trace -/

/-- **A failed `add` leaves no trace exactly when it repeats an attempt.**  Of a first attempt that
the tree refuses the pattern stays behind, and `len` is the number of registered calls exactly as long
as that has not happened. -/
theorem failed_add_iff (M : Matchit H) (calls : List (AddCall H)) :
    (∀ c e, ((after M calls).addStep c).1 = .error e →
      (ObsEq ((after M calls).addStep c).2 (after M calls) ↔ Repeated calls c)) ∧
    ((after M calls).len = (registered M calls).length ↔
      ∀ before c, before ++ [c] <+: calls → (∃ e, ((after M before).addStep c).1 = .error e) →
        Repeated before c) := by
  refine ⟨?_, len_eq_length_registered_iff calls⟩
  intro c e _
  constructor
  · intro hobs
    by_contra hfresh
    have hlen := len_addStep_fresh fun hin => hfresh ((repeated_iff (M := M) calls c).mpr hin)
    have hsame := hobs.len
    omega
  · intro hrep
    rw [addStep_repeated_state hrep]
    exact ObsEq.refl _

def malformed : AddCall ℕ := ⟨⟨"GET".toList⟩, "/\x7bid".toList, 0⟩

/-- Refused once by the tree and then, as a repeat, by the pattern set. -/
theorem failed_add_iff_malformed :
    (ObsEq ((after (routeList ℕ) [malformed]).addStep malformed).2 (after (routeList ℕ) [malformed]) ↔
      Repeated [malformed] malformed) ∧
    ((after (routeList ℕ) [malformed]).len = (registered (routeList ℕ) [malformed]).length ↔
      ∀ before c, before ++ [c] <+: [malformed] →
        (∃ e, ((after (routeList ℕ) before).addStep c).1 = .error e) → Repeated before c) :=
  ⟨(failed_add_iff (routeList ℕ) [malformed]).1 malformed
      (.conflict "GET /\x7bid".toList) (by decide),
    (failed_add_iff (routeList ℕ) [malformed]).2⟩

/-- The tree refuses an unclosed parameter on a new router, which then counts one route. -/
theorem failed_add_counted :
    (routeList ℕ).FailedInsertKeeps ∧
    ((after (routeList ℕ) []).addStep malformed).1 =
      .error (.invalidPattern "/\x7bid: malformed route".toList) ∧
    ¬ ObsEq ((after (routeList ℕ) []).addStep malformed).2 (after (routeList ℕ) []) ∧
    (after (routeList ℕ) [malformed]).len ≠ (registered (routeList ℕ) [malformed]).length := by
  refine ⟨routeList_failedInsertKeeps ℕ, by decide, ?_, by decide⟩
  intro hobs
  have hlen : ((after (routeList ℕ) []).addStep malformed).2.len = 1 := by decide
  have hsame := hobs.len
  rw [hlen] at hsame
  exact absurd hsame (by decide)

/-! ### Interleavings -/

/-- **The order of registration across methods does not matter.** -/
theorem interleavings_agree (M : Matchit H) (calls calls' : List (AddCall H))
    (h : ∀ m, calls.filter (·.method = m) = calls'.filter (·.method = m)) :
    (∀ m, (trace M calls).filter (·.1.method = m) = (trace M calls').filter (·.1.method = m)) ∧
    (∀ m path, (after M calls).matchRoute m path = (after M calls').matchRoute m path) ∧
    (after M calls).len = (after M calls').len := by
  have hmem : ∀ c, c ∈ calls ↔ c ∈ calls' := by
    intro c
    have hc := congrArg (c ∈ ·) (h c.method)
    simpa using hc
  have hroutes : (after M calls).routes = (after M calls').routes := by
    apply HashMap.ext
    intro m
    exact runFrom_component_congr router_componentwise (new M) m (h m)
  have hkeys : (after M calls).allPatterns.keys = (after M calls').allPatterns.keys := by
    ext p
    simp only [mem_allPatterns_keys, hmem]
  refine ⟨?_, ?_, ?_⟩
  · intro m
    exact trace_filter_congr router_componentwise (new M) m (h m)
  · intro m path
    unfold matchRoute
    rw [hroutes, hkeys]
  · unfold len
    rw [hroutes]

/-- The two registrations of an item in one order, and in the other with a refused repeat between. -/
def getThenDelete : List (AddCall ℕ) :=
  [⟨⟨"GET".toList⟩, "/items/{id}".toList, 0⟩, ⟨⟨"GET".toList⟩, "/items/{id}".toList, 1⟩,
    ⟨⟨"DELETE".toList⟩, "/items/{id}".toList, 2⟩]

def deleteThenGet : List (AddCall ℕ) :=
  [⟨⟨"DELETE".toList⟩, "/items/{id}".toList, 2⟩, ⟨⟨"GET".toList⟩, "/items/{id}".toList, 0⟩,
    ⟨⟨"GET".toList⟩, "/items/{id}".toList, 1⟩]

theorem sameByMethod_items (m : Method) :
    getThenDelete.filter (·.method = m) = deleteThenGet.filter (·.method = m) := by
  by_cases hget : (⟨"GET".toList⟩ : Method) = m
  · subst hget
    rfl
  · by_cases hdel : (⟨"DELETE".toList⟩ : Method) = m
    · subst hdel
      rfl
    · simp only [getThenDelete, deleteThenGet, List.filter_cons, hget, hdel, decide_false,
        Bool.false_eq_true, if_false, List.filter_nil]

theorem interleavings_agree_items :
    (∀ m, (trace (routeList ℕ) getThenDelete).filter (·.1.method = m) =
      (trace (routeList ℕ) deleteThenGet).filter (·.1.method = m)) ∧
    (∀ m path, (after (routeList ℕ) getThenDelete).matchRoute m path =
      (after (routeList ℕ) deleteThenGet).matchRoute m path) ∧
    (after (routeList ℕ) getThenDelete).len = (after (routeList ℕ) deleteThenGet).len :=
  interleavings_agree (routeList ℕ) getThenDelete deleteThenGet sameByMethod_items

end RustApi.Router
