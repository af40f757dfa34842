import RustApi.Engine.Router

/-!
# What a router remembers of its `add` calls

The router is a family of per-method components that share one bookkeeping map.  `ownStep` is what
an `add` does to the routes of its own method, and `router_componentwise` says that this is all it
does to any method's routes.  From there the history of calls is read off the state:

* `mem_entryOf_patterns` — a method's pattern set holds every pattern that was ever handed to it,
  whether or not the tree accepted the pattern;
* `entryOf_inner` — a method's tree was built by `insert` calls for patterns that were handed to it, of
  which exactly those of the registered calls succeeded;
* `mem_allPatterns_keys` — the keys of the shared map are all patterns ever handed to any method.
-/

namespace RustApi.Router

open RustStd StepRuns

variable {H : Type} {M : Matchit H}

/-- What `add` does to the routes of its own method, which may not exist yet. -/
def ownStep (M : Matchit H) (e : Option (MethodRoutes M)) (c : AddCall H) :
    Except RouterError Unit × Option (MethodRoutes M) :=
  let entry := e.getD (MethodRoutes.default M)
  if c.pattern ∈ entry.patterns then
    (.error (.conflict (c.method.asStr ++ " ".toList ++ c.pattern)), some entry)
  else
    let inserted := M.insert entry.inner c.pattern c.handler
    (match inserted.1 with
      | .error e => .error (.invalidPattern (c.pattern ++ ": ".toList ++ e))
      | .ok () => .ok (),
      some ⟨inserted.2, insert c.pattern entry.patterns⟩)

theorem ownStep_repeated {e : Option (MethodRoutes M)} {c : AddCall H}
    (h : c.pattern ∈ (e.getD (MethodRoutes.default M)).patterns) :
    ownStep M e c = (.error (.conflict (c.method.asStr ++ " ".toList ++ c.pattern)),
      some (e.getD (MethodRoutes.default M))) := by
  simp only [ownStep, if_pos h]

theorem ownStep_fresh {e : Option (MethodRoutes M)} {c : AddCall H}
    (h : c.pattern ∉ (e.getD (MethodRoutes.default M)).patterns) :
    ownStep M e c =
      (match (M.insert (e.getD (MethodRoutes.default M)).inner c.pattern c.handler).1 with
        | .error e => .error (.invalidPattern (c.pattern ++ ": ".toList ++ e))
        | .ok () => .ok (),
      some ⟨(M.insert (e.getD (MethodRoutes.default M)).inner c.pattern c.handler).2,
        insert c.pattern (e.getD (MethodRoutes.default M)).patterns⟩) := by
  simp only [ownStep, if_neg h]

/-- The map of routes after an `add`: one entry is written. -/
theorem addStep_routes (r : Router M) (c : AddCall H) :
    ∃ e, (ownStep M (r.routes.get c.method) c).2 = some e ∧
      (r.addStep c).2.routes = r.routes.insert c.method e := by
  by_cases h : c.pattern ∈ (r.entryOf c.method).patterns
  · refine ⟨r.entryOf c.method, ?_, (addStep_repeated h).2⟩
    rw [ownStep_repeated h]
    rfl
  · refine ⟨_, ?_, (addStep_fresh h).2⟩
    rw [ownStep_fresh h]
    rfl

/-- **Methods do not see each other's routes.** -/
theorem router_componentwise :
    Componentwise (addStep (M := M)) AddCall.method (fun m r => r.routes.get m) (ownStep M) where
  out r c := by
    by_cases h : c.pattern ∈ (r.entryOf c.method).patterns
    · rw [(addStep_repeated h).1, ownStep_repeated h]
    · rw [(addStep_fresh h).1, ownStep_fresh h]
      rfl
  own r c := by
    obtain ⟨e, he, hroutes⟩ := addStep_routes r c
    rw [hroutes, HashMap.get_insert_self, he]
  other r c m hm := by
    obtain ⟨e, -, hroutes⟩ := addStep_routes r c
    rw [hroutes, HashMap.get_insert_of_ne _ _ hm]

/-! ### The history of one method -/

/-- What the routes of a method say about the calls it received. -/
structure OwnHistory (M : Matchit H) (calls : List (AddCall H)) (e : Option (MethodRoutes M)) :
    Prop where
  isSome_iff : e.isSome ↔ calls ≠ []
  patterns : ∀ p, p ∈ (e.getD (MethodRoutes.default M)).patterns ↔ ∃ c ∈ calls, c.pattern = p
  inner : ∃ ops, (e.getD (MethodRoutes.default M)).inner = M.treeOf ops ∧
    M.inserted ops =
      (accepted (traceFrom (ownStep M) none calls)).map (fun c => (c.pattern, c.handler)) ∧
    ∀ o ∈ ops, ∃ c ∈ calls, (c.pattern, c.handler) = o

theorem ownHistory_nil : OwnHistory M [] none where
  isSome_iff := by simp
  patterns p := by simp [MethodRoutes.default]
  inner := ⟨[], rfl, rfl, by simp⟩

theorem accepted_ownTrace_snoc (calls : List (AddCall H)) (c : AddCall H) :
    accepted (traceFrom (ownStep M) none (calls ++ [c])) =
      accepted (traceFrom (ownStep M) none calls) ++
        accepted [(c, (ownStep M (runFrom (ownStep M) none calls) c).1)] := by
  rw [traceFrom_snoc, accepted_append]

/-- One more call on a method whose routes record the calls before it. -/
theorem OwnHistory.snoc {calls : List (AddCall H)}
    (h : OwnHistory M calls (runFrom (ownStep M) none calls)) (c : AddCall H) :
    OwnHistory M (calls ++ [c]) (ownStep M (runFrom (ownStep M) none calls) c).2 := by
  obtain ⟨ops, hinner, hins, hfrom⟩ := h.inner
  by_cases hrep : c.pattern ∈
      ((runFrom (ownStep M) none calls).getD (MethodRoutes.default M)).patterns
  · -- a repeat: the routes stay, the tree is not asked
    have hacc := accepted_ownTrace_snoc (M := M) calls c
    rw [ownStep_repeated hrep, accepted_singleton_error, List.append_nil] at hacc
    rw [ownStep_repeated hrep]
    refine ⟨by simp, ?_, ops, hinner, by rw [hacc, hins], ?_⟩
    · intro p
      rw [Option.getD_some, h.patterns p, exists_mem_snoc]
      constructor
      · exact Or.inl
      · intro hp
        rcases hp with hp | hp
        · exact hp
        · exact (h.patterns p).mp (hp ▸ hrep)
    · intro o ho
      exact exists_mem_snoc.mpr (.inl (hfrom o ho))
  · -- a first attempt: the pattern is recorded, the tree decides
    have hacc := accepted_ownTrace_snoc (M := M) calls c
    rw [ownStep_fresh hrep] at hacc ⊢
    refine ⟨by simp, ?_, ops ++ [(c.pattern, c.handler)], ?_, ?_, ?_⟩
    · intro p
      rw [Option.getD_some, Finset.mem_insert, h.patterns p, exists_mem_snoc, or_comm, eq_comm]
    · rw [Option.getD_some, Matchit.treeOf_snoc, hinner]
    · rw [hacc, List.map_append, ← hins, hinner]
      cases hout : (M.insert (M.treeOf ops) c.pattern c.handler).1 with
      | error e =>
          rw [Matchit.inserted_snoc_error M hout, accepted_singleton_error, List.map_nil,
            List.append_nil]
      | ok u =>
          rw [Matchit.inserted_snoc_ok M hout, accepted_singleton_ok, List.map_cons, List.map_nil]
    · intro o ho
      rw [List.mem_append, List.mem_singleton] at ho
      rw [exists_mem_snoc, eq_comm (b := o)]
      exact ho.imp_left (hfrom o)

theorem ownHistory (calls : List (AddCall H)) :
    OwnHistory M calls (runFrom (ownStep M) none calls) := by
  induction calls using List.reverseRecOn with
  | nil => exact ownHistory_nil
  | append_singleton calls c ih =>
      rw [runFrom_snoc]
      exact ih.snoc c

/-! ### The history of the whole router -/

theorem after_routes_get (calls : List (AddCall H)) (m : Method) :
    (after M calls).routes.get m = runFrom (ownStep M) none (calls.filter (·.method = m)) := by
  have h := runFrom_component (router_componentwise (M := M)) m (new M) calls
  rwa [show (new M).routes.get m = none from HashMap.get_empty m] at h

theorem registered_filter (calls : List (AddCall H)) (m : Method) :
    (registered M calls).filter (·.method = m) =
      accepted (traceFrom (ownStep M) none (calls.filter (·.method = m))) := by
  have h := traceFrom_component (router_componentwise (M := M)) m (new M) calls
  rw [show (new M).routes.get m = none from HashMap.get_empty m] at h
  rw [← h, registered, trace, accepted, accepted, List.filter_map, List.filter_filter,
    List.filter_filter]
  congr 1
  apply List.filter_congr
  intro e _
  exact Bool.and_comm _ _

theorem ownHistory_filter (calls : List (AddCall H)) (m : Method) :
    OwnHistory M (calls.filter (·.method = m)) ((after M calls).routes.get m) := by
  rw [after_routes_get]
  exact ownHistory _

theorem routes_get_isSome (calls : List (AddCall H)) (m : Method) :
    ((after M calls).routes.get m).isSome ↔ ∃ c ∈ calls, c.method = m := by
  rw [(ownHistory_filter calls m).isSome_iff, ne_eq, List.filter_eq_nil_iff]
  simp

/-- **A method's pattern set holds every pattern ever handed to it.** -/
theorem mem_entryOf_patterns (calls : List (AddCall H)) (m : Method) (p : Str) :
    p ∈ ((after M calls).entryOf m).patterns ↔ ∃ c ∈ calls, c.method = m ∧ c.pattern = p := by
  rw [entryOf, (ownHistory_filter calls m).patterns p]
  simp [and_assoc]

/-- **A method's tree holds exactly the registered calls of the method**, and only patterns that were
handed to `add` have been handed to it. -/
theorem entryOf_inner (calls : List (AddCall H)) (m : Method) :
    ∃ ops, ((after M calls).entryOf m).inner = M.treeOf ops ∧
      M.inserted ops =
        ((registered M calls).filter (·.method = m)).map (fun c => (c.pattern, c.handler)) ∧
      ∀ o ∈ ops, ∃ c ∈ calls, c.pattern = o.1 := by
  obtain ⟨ops, hinner, hins, hfrom⟩ := (ownHistory_filter (M := M) calls m).inner
  rw [registered_filter]
  refine ⟨ops, hinner, hins, ?_⟩
  intro o ho
  obtain ⟨c, hc, rfl⟩ := hfrom o ho
  exact ⟨c, (List.mem_filter.mp hc).1, rfl⟩

/-- **The shared map lists every pattern ever handed to any method.** -/
theorem mem_allPatterns_keys (calls : List (AddCall H)) (p : Str) :
    p ∈ (after M calls).allPatterns.keys ↔ ∃ c ∈ calls, c.pattern = p := by
  refine runFrom_history addStep
    (fun calls r => p ∈ r.allPatterns.keys ↔ ∃ c ∈ calls, c.pattern = p) (by simp [new]) ?_ calls
  intro calls r c ih
  rw [addStep_allPatterns, HashMap.keys_insert, Finset.mem_insert, ih, exists_mem_snoc, or_comm,
    eq_comm]

end RustApi.Router
