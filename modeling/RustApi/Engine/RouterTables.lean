import RustApi.Engine.PathParams
import RustApi.Engine.RouterErrors

/-!
# Tables of routes

A table is `Admissible` when its patterns are well formed and no two routes of one method are equal or
clash: exactly then every call of `add` succeeds (`registered_eq_self_iff`).

What a router answers depends on two sets, the registered routes and the patterns handed to `add`
(`verdict_eq`).  So two things about histories follow:

* `answers_never_taken_back` — a longer history serves at least what a shorter one does.
* `order_of_table` — the order of an admissible table is of no account.
-/

namespace RustApi.Router

open RustStd StepRuns

variable {H : Type} {M : Matchit H} {clashes : Str → Str → Prop} {known : Str → Prop}

/-! ### Tables without errors -/

/-- Every pattern is well formed, and no two routes of one method are equal or clash. -/
structure Admissible (clashes : Str → Str → Prop) (M : Matchit H) (calls : List (AddCall H)) :
    Prop where
  wellFormed : ∀ c ∈ calls, ¬ M.Malformed c.pattern
  apart : calls.Pairwise fun c c' => c.method = c'.method →
    c.pattern ≠ c'.pattern ∧ ¬ clashes c.pattern c'.pattern

theorem admissible_nil : Admissible clashes M [] := ⟨by simp, .nil⟩

theorem Admissible.of_prefix {calls before : List (AddCall H)} (h : Admissible clashes M calls)
    (hpre : before <+: calls) : Admissible clashes M before :=
  ⟨fun c hc => h.wellFormed c (hpre.subset hc), h.apart.sublist hpre.sublist⟩

/-- One route more: it is well formed, and no route of its method equals it or clashes with it. -/
theorem admissible_snoc (calls : List (AddCall H)) (c : AddCall H) :
    Admissible clashes M (calls ++ [c]) ↔ Admissible clashes M calls ∧ ¬ M.Malformed c.pattern ∧
      ∀ c' ∈ calls, c'.method = c.method →
        c'.pattern ≠ c.pattern ∧ ¬ clashes c'.pattern c.pattern := by
  have happart : (calls ++ [c]).Pairwise (fun c c' => c.method = c'.method →
      c.pattern ≠ c'.pattern ∧ ¬ clashes c.pattern c'.pattern) ↔
      calls.Pairwise (fun c c' => c.method = c'.method →
        c.pattern ≠ c'.pattern ∧ ¬ clashes c.pattern c'.pattern) ∧
      ∀ c' ∈ calls, c'.method = c.method →
        c'.pattern ≠ c.pattern ∧ ¬ clashes c'.pattern c.pattern := by
    simp [List.pairwise_append]
  constructor
  · intro h
    obtain ⟨hcalls, hc⟩ := happart.mp h.apart
    exact ⟨⟨fun c' hc' => h.wellFormed c' (List.mem_append_left _ hc'), hcalls⟩,
      h.wellFormed c (List.mem_append_right _ (List.mem_singleton_self _)), hc⟩
  · intro h
    obtain ⟨hcalls, hwell, hc⟩ := h
    refine ⟨?_, happart.mpr ⟨hcalls.apart, hc⟩⟩
    intro c' hc'
    rcases List.mem_append.mp hc' with hc' | hc'
    · exact hcalls.wellFormed c' hc'
    · rw [List.mem_singleton.mp hc']
      exact hwell

/-- **Everything is registered exactly when the table is admissible.** -/
theorem registered_eq_self_iff (hM : M.RefusesExactly clashes) (calls : List (AddCall H)) :
    registered M calls = calls ↔ Admissible clashes M calls := by
  induction calls using List.reverseRecOn with
  | nil => exact iff_of_true rfl admissible_nil
  | append_singleton calls c ih =>
      have hsnoc : registered M (calls ++ [c]) = calls ++ [c] ↔ registered M calls = calls ∧
          ∃ a, ((after M calls).addStep c).1 = .ok a := accepted_snoc_eq_iff addStep (new M) calls c
      rw [hsnoc, admissible_snoc, ← ih]
      refine and_congr_right fun hall => ?_
      have htaken : Taken clashes M calls c ↔ ∃ c' ∈ calls, c'.method = c.method ∧
          (c'.pattern = c.pattern ∨ clashes c'.pattern c.pattern) := by
        rw [Taken, hall]
      have hplace : (∀ c' ∈ calls, c'.method = c.method →
          c'.pattern ≠ c.pattern ∧ ¬ clashes c'.pattern c.pattern) ↔ ¬ Taken clashes M calls c := by
        rw [htaken]
        simp only [not_exists, not_and, not_or, ne_eq]
      rw [hplace, ← malformed_iff hM c, ← not_or]
      have hnot (e : RouterError) : ¬ ∃ a, (Except.error e : Except RouterError Unit) = .ok a := by
        intro h
        obtain ⟨a, ha⟩ := h
        cases ha
      rcases addStep_error_cases hM calls c with ⟨hrep, s, he⟩ | ⟨-, herr, s, he⟩ | ⟨-, hno, hok⟩
      · -- a repeat of a call that was registered
        obtain ⟨c', hc', hm, hp⟩ := hrep
        rw [he]
        exact iff_of_false (hnot _) fun h => h (.inr (htaken.mpr ⟨c', hc', hm, .inl hp⟩))
      · rw [he]
        exact iff_of_false (hnot _) fun h => h herr
      · exact iff_of_true ⟨(), hok⟩ hno

/-- No order makes a table admissible or not. -/
theorem Admissible.perm (hsymm : ∀ p q, clashes p q → clashes q p) {calls calls' : List (AddCall H)}
    (h : Admissible clashes M calls) (hperm : calls.Perm calls') : Admissible clashes M calls' where
  wellFormed c hc := h.wellFormed c (hperm.mem_iff.mpr hc)
  apart := by
    refine (hperm.pairwise_iff ?_).mp h.apart
    intro c c' happart hmethod
    obtain ⟨hne, hno⟩ := happart hmethod.symm
    exact ⟨hne.symm, fun hclash => hno (hsymm _ _ hclash)⟩

/-! ### Answers along a history -/

/-- **The answer, from the registered routes and the patterns handed to `add`.** -/
theorem verdict_eq (hM : M.AtFindsMatches known) {calls : List (AddCall H)}
    (hknown : ∀ c ∈ calls, known c.pattern) (m : Method) (path : Str) :
    verdict ((after M calls).matchRoute m path) =
      if ServesMethod (registered M calls) m path then .found
      else if Suggests calls path then .methodNotAllowed else .notFound := by
  rcases matchRoute_cases hM hknown m path with ⟨hs, v, p, hok⟩ | ⟨hs, hsug, he⟩ | ⟨hs, hsug, he⟩
  · rw [hok, if_pos hs]
    rfl
  · rw [he, if_neg hs, if_pos hsug]
    rfl
  · rw [he, if_neg hs, if_neg hsug]
    rfl

/-- A 404 is less than a 405, and a 405 less than an answer. -/
def Verdict.rank : Verdict → ℕ
  | .notFound => 0
  | .methodNotAllowed => 1
  | .found => 2

/-- **No answer is taken back.**  Whatever is registered next, successfully or not, a request that was
found is found, and one that got a 405 does not get a 404. -/
theorem answers_never_taken_back (hM : M.AtFindsMatches known) (calls more : List (AddCall H))
    (hknown : ∀ c ∈ calls ++ more, known c.pattern) (m : Method) (path : Str) :
    (verdict ((after M calls).matchRoute m path)).rank ≤
      (verdict ((after M (calls ++ more)).matchRoute m path)).rank := by
  have hregistered : registered M calls <+: registered M (calls ++ more) :=
    accepted_mono addStep (new M) (List.prefix_append calls more)
  have hserves (h : ServesMethod (registered M calls) m path) :
      ServesMethod (registered M (calls ++ more)) m path := by
    obtain ⟨c, hc, hmatch⟩ := h
    exact ⟨c, hregistered.subset hc, hmatch⟩
  have hsuggests (h : Suggests calls path) : Suggests (calls ++ more) path := by
    obtain ⟨c, hc, hfit⟩ := h
    exact ⟨c, List.mem_append_left more hc, hfit⟩
  rw [verdict_eq hM fun c hc => hknown c (List.mem_append_left more hc), verdict_eq hM hknown]
  by_cases hs : ServesMethod (registered M calls) m path
  · rw [if_pos hs, if_pos (hserves hs)]
  · rw [if_neg hs]
    by_cases hsug : Suggests calls path
    · rw [if_pos hsug, if_pos (hsuggests hsug)]
      split
      · exact Nat.le_succ 1
      · exact Nat.le_refl 1
    · rw [if_neg hsug]
      exact Nat.zero_le _

/-- A malformed route after the users. -/
theorem answers_never_taken_back_users :
    (verdict ((after (routeList ℕ) usersById).matchRoute ⟨"GET".toList⟩ "/users/42".toList)).rank ≤
      (verdict ((after (routeList ℕ) (usersById ++ [malformed])).matchRoute ⟨"GET".toList⟩
        "/users/42".toList)).rank :=
  answers_never_taken_back (routeList_atFindsMatches ℕ Route.Any) usersById [malformed]
    (fun _ _ => trivial) _ _

/-- **The order of an admissible table is of no account.**  In any order every route is registered, `len`
is the number of routes, and every request gets the same kind of answer; where one route matches it gets
that route's handler and parameters. -/
theorem order_of_table (hM : M.RefusesExactly clashes) (hsymm : ∀ p q, clashes p q → clashes q p)
    (hfind : M.AtFindsMatches known) (hcap : M.AtReportsCaptures known)
    {table table' : List (AddCall H)} (hknown : ∀ c ∈ table, known c.pattern)
    (hperm : table.Perm table') (h : Admissible clashes M table) :
    registered M table' = table' ∧ (after M table').len = table.length ∧
    ∀ m path, verdict ((after M table').matchRoute m path) =
        verdict ((after M table).matchRoute m path) ∧
      ((∃! c, c ∈ table ∧ c.method = m ∧ Route.Matches c.pattern path) →
        (after M table').matchRoute m path = (after M table).matchRoute m path) := by
  have hknown' : ∀ c ∈ table', known c.pattern := fun c hc => hknown c (hperm.mem_iff.mpr hc)
  have hall : registered M table = table := (registered_eq_self_iff hM table).mpr h
  have hall' : registered M table' = table' :=
    (registered_eq_self_iff hM table').mpr (h.perm hsymm hperm)
  refine ⟨hall', (len_of_registered hall').trans hperm.length_eq.symm, fun m path => ⟨?_, ?_⟩⟩
  · have hserves : ServesMethod table' m path ↔ ServesMethod table m path :=
      exists_congr fun c => and_congr_left fun _ => hperm.mem_iff.symm
    have hsuggests : Suggests table' path ↔ Suggests table path :=
      exists_congr fun c => and_congr_left fun _ => hperm.mem_iff.symm
    rw [verdict_eq hfind hknown', verdict_eq hfind hknown, hall, hall']
    simp only [hserves, hsuggests]
  · intro hone
    obtain ⟨c, ⟨hc, rfl, ps, vs, hps, hfill⟩, honly⟩ := hone
    have hc' : c ∈ registered M table' := by
      rw [hall']
      exact hperm.mem_iff.mp hc
    have hfirst := matchRoute_of_fills hfind hcap hknown (by rw [hall]; exact hc) hps hfill
      (fun d hd hmethod hmatch => honly d ⟨by rw [hall] at hd; exact hd, hmethod, hmatch⟩)
    have hsecond := matchRoute_of_fills hfind hcap hknown' hc' hps hfill
      (fun d hd hmethod hmatch =>
        honly d ⟨hperm.mem_iff.mpr (by rw [hall'] at hd; exact hd), hmethod, hmatch⟩)
    rw [hfirst, hsecond]

/-- One item, to be read and to be deleted. -/
def itemTable : List (AddCall ℕ) :=
  [⟨⟨"GET".toList⟩, "/items/{id}".toList, 0⟩, ⟨⟨"DELETE".toList⟩, "/items/{id}".toList, 1⟩]

theorem order_of_table_items :
    registered (routeList ℕ) itemTable.reverse = itemTable.reverse ∧
      (after (routeList ℕ) itemTable.reverse).len = 2 ∧
      ∀ m path, verdict ((after (routeList ℕ) itemTable.reverse).matchRoute m path) =
        verdict ((after (routeList ℕ) itemTable).matchRoute m path) := by
  have hadmissible : Admissible Route.Clashes (routeList ℕ) itemTable :=
    (registered_eq_self_iff (routeList_refusesExactly ℕ) itemTable).mp (by decide)
  obtain ⟨hall, hlen, hanswers⟩ := order_of_table (routeList_refusesExactly ℕ)
    (fun _ _ => Route.Clashes.symm) (routeList_atFindsMatches ℕ Route.Any)
    (routeList_atReportsCaptures ℕ Route.Any) (fun _ _ => trivial)
    (List.reverse_perm itemTable).symm hadmissible
  exact ⟨hall, hlen, fun m path => (hanswers m path).1⟩

end RustApi.Router
