import RustApi.Engine.Router

/-!
# The two indexes of the router

A router files every attempt twice: `routes` from a method to its patterns, `allPatterns` from a
pattern to its methods.  The two maps are written at different points of `add`, with two ways out
after the first write.

`listed_addStep` and `filed_addStep` say that, whichever way `add` is left, both gain the pair of the
call and nothing else.  `IndexesInStep` is the invariant that follows, with the sizes of the two maps
among its fields, and `after_indexesInStep` carries it through every run.
-/

namespace RustApi.Router

open RustStd StepRuns

variable {H : Type} {M : Matchit H}

/-- The list of the pattern names the method. -/
def Listed (r : Router M) (m : Method) (p : Str) : Prop :=
  ∃ ms, r.allPatterns.get p = some ms ∧ m ∈ ms

/-- The routes of the method name the pattern. -/
def Filed (r : Router M) (m : Method) (p : Str) : Prop :=
  ∃ e, r.routes.get m = some e ∧ p ∈ e.patterns

theorem listed_iff_mem (r : Router M) (m : Method) (p : Str) :
    Listed r m p ↔ m ∈ (r.allPatterns.get p).getD [] := by
  unfold Listed
  cases r.allPatterns.get p with
  | none => simp
  | some ms => simp

theorem filed_iff_mem (r : Router M) (m : Method) (p : Str) :
    Filed r m p ↔ p ∈ (r.entryOf m).patterns := by
  unfold Filed entryOf
  cases r.routes.get m with
  | none => simp [MethodRoutes.default]
  | some e => simp

/-! ### What one `add` files -/

/-- **The pattern's list gains the method**, whatever `add` returns. -/
theorem listed_addStep (r : Router M) (c : AddCall H) (m : Method) (p : Str) :
    Listed (r.addStep c).2 m p ↔ Listed r m p ∨ m = c.method ∧ p = c.pattern := by
  rw [listed_iff_mem, listed_iff_mem, addStep_allPatterns, HashMap.get_insert]
  by_cases hp : p = c.pattern
  · rw [if_pos hp, Option.getD_some, hp]
    split
    · next hmem =>
      constructor
      · exact Or.inl
      · intro h
        rcases h with h | ⟨h, -⟩
        · exact h
        · rw [h]
          exact hmem
    · simp
  · simp [hp]

/-- **The method's patterns gain the pattern**, whatever `add` returns. -/
theorem filed_addStep (r : Router M) (c : AddCall H) (m : Method) (p : Str) :
    Filed (r.addStep c).2 m p ↔ Filed r m p ∨ m = c.method ∧ p = c.pattern := by
  rw [filed_iff_mem, filed_iff_mem]
  by_cases hm : m = c.method
  · subst hm
    by_cases hrep : c.pattern ∈ (r.entryOf c.method).patterns
    · -- a repeat: the entry is written back as it was
      rw [entryOf, (addStep_repeated hrep).2, HashMap.get_insert_self, Option.getD_some]
      constructor
      · exact Or.inl
      · intro h
        rcases h with h | ⟨-, h⟩
        · exact h
        · rw [h]
          exact hrep
    · -- a first attempt, accepted or not
      rw [entryOf, (addStep_fresh hrep).2, HashMap.get_insert_self, Option.getD_some,
        Finset.mem_insert]
      simp only [true_and]
      exact or_comm
  · have hsame : (r.addStep c).2.entryOf m = r.entryOf m := by
      by_cases hrep : c.pattern ∈ (r.entryOf c.method).patterns
      · rw [entryOf, (addStep_repeated hrep).2, HashMap.get_insert_of_ne _ _ hm, entryOf]
      · rw [entryOf, (addStep_fresh hrep).2, HashMap.get_insert_of_ne _ _ hm, entryOf]
    rw [hsame]
    simp [hm]

/-- **A pattern lists every method it was handed to `add` with.** -/
theorem listed_after (calls : List (AddCall H)) (m : Method) (p : Str) :
    Listed (after M calls) m p ↔ ∃ c ∈ calls, c.method = m ∧ c.pattern = p := by
  refine runFrom_history addStep (fun calls r => Listed r m p ↔
    ∃ c ∈ calls, c.method = m ∧ c.pattern = p) (by simp [Listed, new]) ?_ calls
  intro calls r c ih
  rw [listed_addStep, ih, exists_mem_snoc, @eq_comm _ m, @eq_comm _ p]

/-! ### The invariant -/

/-- The two indexes hold the same pairs, `allPatterns` without repetition and without empty lists, and
`len` counts them. -/
structure IndexesInStep (r : Router M) : Prop where
  listed_iff : ∀ m p, Listed r m p ↔ Filed r m p
  nodup : ∀ p ms, r.allPatterns.get p = some ms → ms.Nodup
  ne_nil : ∀ p ms, r.allPatterns.get p = some ms → ms ≠ []
  len_eq : r.len = r.allPatterns.valueSum List.length

theorem indexesInStep_new (M : Matchit H) : IndexesInStep (new M) where
  listed_iff m p := by simp [Listed, Filed, new]
  nodup p ms h := by simp [new] at h
  ne_nil p ms h := by simp [new] at h
  len_eq := rfl

/-- A pattern's list grows by one exactly when the pair was not filed before. -/
theorem valueSum_addStep (r : Router M) (c : AddCall H) :
    (r.addStep c).2.allPatterns.valueSum List.length =
      r.allPatterns.valueSum List.length +
        if c.method ∈ (r.allPatterns.get c.pattern).getD [] then 0 else 1 := by
  have hsum := HashMap.valueSum_insert List.length r.allPatterns c.pattern
    (if c.method ∈ (r.allPatterns.get c.pattern).getD []
      then (r.allPatterns.get c.pattern).getD []
      else (r.allPatterns.get c.pattern).getD [] ++ [c.method])
  have hold : ((r.allPatterns.get c.pattern).map List.length).getD 0 =
      ((r.allPatterns.get c.pattern).getD []).length := by
    cases r.allPatterns.get c.pattern with
    | none => rfl
    | some ms => rfl
  rw [← addStep_allPatterns, hold] at hsum
  split at hsum
  · next hmem =>
    rw [if_pos hmem]
    omega
  · next hno =>
    rw [List.length_append, List.length_singleton] at hsum
    rw [if_neg hno]
    omega

theorem len_addStep (r : Router M) (c : AddCall H) :
    (r.addStep c).2.len =
      r.len + if c.pattern ∈ (r.entryOf c.method).patterns then 0 else 1 := by
  have hown : ((r.routes.get c.method).map fun e => e.patterns.card).getD 0 =
      (r.entryOf c.method).patterns.card := by
    rw [entryOf]
    cases r.routes.get c.method with
    | none => rfl
    | some e => rfl
  by_cases hrep : c.pattern ∈ (r.entryOf c.method).patterns
  · have hsum := HashMap.valueSum_insert (fun e : MethodRoutes M => e.patterns.card) r.routes
      c.method (r.entryOf c.method)
    rw [hown, ← (addStep_repeated hrep).2] at hsum
    rw [if_pos hrep]
    unfold len
    omega
  · have hsum := HashMap.valueSum_insert (fun e : MethodRoutes M => e.patterns.card) r.routes
      c.method ⟨(M.insert (r.entryOf c.method).inner c.pattern c.handler).2,
        insert c.pattern (r.entryOf c.method).patterns⟩
    rw [hown, Finset.card_insert_of_notMem hrep, ← (addStep_fresh hrep).2] at hsum
    rw [if_neg hrep]
    unfold len
    omega

/-- A pattern's list is the old one, or that of the call's pattern with the method at its end. -/
theorem allPatterns_addStep_get {r : Router M} {c : AddCall H} {p : Str} {ms : List Method}
    (h : (r.addStep c).2.allPatterns.get p = some ms) :
    r.allPatterns.get p = some ms ∨ c.method ∉ (r.allPatterns.get c.pattern).getD [] ∧
      ms = (r.allPatterns.get c.pattern).getD [] ++ [c.method] := by
  rw [addStep_allPatterns, HashMap.get_insert] at h
  by_cases hp : p = c.pattern
  · rw [if_pos hp, Option.some.injEq] at h
    split at h
    · next hmem =>
      left
      rw [hp]
      cases hget : r.allPatterns.get c.pattern with
      | none => simp [hget] at hmem
      | some old => rw [← h, hget, Option.getD_some]
    · next hno => exact .inr ⟨hno, h.symm⟩
  · rw [if_neg hp] at h
    exact .inl h

/-- One more call keeps the indexes in step. -/
theorem IndexesInStep.addStep {r : Router M} (h : IndexesInStep r) (c : AddCall H) :
    IndexesInStep (r.addStep c).2 where
  listed_iff m p := by rw [listed_addStep, filed_addStep, h.listed_iff]
  nodup p ms hget := by
    rcases allPatterns_addStep_get hget with hold | ⟨hno, rfl⟩
    · exact h.nodup p ms hold
    · have hold : ((r.allPatterns.get c.pattern).getD []).Nodup := by
        cases hc : r.allPatterns.get c.pattern with
        | none => exact List.nodup_nil
        | some old => exact h.nodup _ _ hc
      rw [List.nodup_append]
      refine ⟨hold, List.nodup_singleton _, ?_⟩
      intro m hm m' hm' heq
      rw [List.mem_singleton.mp hm'] at heq
      exact hno (heq ▸ hm)
  ne_nil p ms hget := by
    rcases allPatterns_addStep_get hget with hold | ⟨-, rfl⟩
    · exact h.ne_nil p ms hold
    · exact List.concat_ne_nil _ _
  len_eq := by
    have hsame := h.listed_iff c.method c.pattern
    rw [listed_iff_mem, filed_iff_mem] at hsame
    rw [len_addStep, valueSum_addStep, h.len_eq]
    simp only [hsame]

/-- **The indexes stay in step through every run.** -/
theorem after_indexesInStep (M : Matchit H) (calls : List (AddCall H)) :
    IndexesInStep (after M calls) :=
  runFrom_history addStep (fun _ r => IndexesInStep r) (indexesInStep_new M)
    (fun _ _ c ih => ih.addStep c) calls

end RustApi.Router
