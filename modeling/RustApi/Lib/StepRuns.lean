import Mathlib.Data.List.Induction
import Mathlib.Data.List.Basic

/-!
# Runs of a deterministic step function with outputs

A component is a function `step : σ → ι → ω × σ`: from a state and an input it computes one output
and the next state.  This file develops its runs: the state after a list of inputs, the list of
inputs paired with their outputs, and two rules about them.

* `runFrom_history` — what a relation between histories and states needs to hold of every run.
* `runFrom_component`, `traceFrom_component` — when every input is addressed to one component of the
  state and touches nothing else, a component only ever sees the inputs addressed to it.

`trace_filter_congr` and `runFrom_component_congr` are the two consequences for interleavings: two
input lists that agree component by component give the same outputs and the same components.
-/

namespace StepRuns

variable {σ ι ω κ γ : Type*}

/-- The state after all the inputs. -/
def runFrom (step : σ → ι → ω × σ) (s : σ) : List ι → σ
  | [] => s
  | i :: is => runFrom step (step s i).2 is

/-- Every input together with the output it got, in order. -/
def traceFrom (step : σ → ι → ω × σ) (s : σ) : List ι → List (ι × ω)
  | [] => []
  | i :: is => (i, (step s i).1) :: traceFrom step (step s i).2 is

/-- What some input of a history satisfies, after one input more. -/
theorem exists_mem_snoc {p : ι → Prop} {is : List ι} {i : ι} :
    (∃ j ∈ is ++ [i], p j) ↔ (∃ j ∈ is, p j) ∨ p i := by
  simp only [List.mem_append, List.mem_singleton, or_and_right, exists_or, exists_eq_left]

section Runs

variable (step : σ → ι → ω × σ)

@[simp] theorem runFrom_nil (s : σ) : runFrom step s [] = s := rfl

@[simp] theorem runFrom_cons (s : σ) (i : ι) (is : List ι) :
    runFrom step s (i :: is) = runFrom step (step s i).2 is := rfl

@[simp] theorem traceFrom_nil (s : σ) : traceFrom step s [] = [] := rfl

@[simp] theorem traceFrom_cons (s : σ) (i : ι) (is : List ι) :
    traceFrom step s (i :: is) = (i, (step s i).1) :: traceFrom step (step s i).2 is := rfl

theorem runFrom_append (s : σ) (is js : List ι) :
    runFrom step s (is ++ js) = runFrom step (runFrom step s is) js := by
  induction is generalizing s with
  | nil => rfl
  | cons i is ih => exact ih (step s i).2

theorem traceFrom_append (s : σ) (is js : List ι) :
    traceFrom step s (is ++ js) = traceFrom step s is ++ traceFrom step (runFrom step s is) js := by
  induction is generalizing s with
  | nil => rfl
  | cons i is ih => simp only [List.cons_append, traceFrom_cons, runFrom_cons, ih]

theorem runFrom_snoc (s : σ) (is : List ι) (i : ι) :
    runFrom step s (is ++ [i]) = (step (runFrom step s is) i).2 := by
  rw [runFrom_append]
  rfl

theorem traceFrom_snoc (s : σ) (is : List ι) (i : ι) :
    traceFrom step s (is ++ [i]) =
      traceFrom step s is ++ [(i, (step (runFrom step s is) i).1)] := by
  rw [traceFrom_append]
  rfl

/-- The entries of a trace are the steps of the run. -/
theorem mem_traceFrom {s : σ} {is : List ι} {e : ι × ω} : e ∈ traceFrom step s is ↔
    ∃ js, js ++ [e.1] <+: is ∧ e.2 = (step (runFrom step s js) e.1).1 := by
  constructor
  · intro h
    induction is generalizing s with
    | nil => cases h
    | cons i is ih =>
        rw [traceFrom_cons, List.mem_cons] at h
        rcases h with rfl | h
        · exact ⟨[], List.prefix_append [i] is, rfl⟩
        · obtain ⟨js, hjs, hout⟩ := ih h
          exact ⟨i :: js, (List.prefix_cons_inj i).mpr hjs, hout⟩
  · intro h
    obtain ⟨js, ⟨rest, rfl⟩, hout⟩ := h
    rw [traceFrom_append, traceFrom_snoc, ← hout]
    exact List.mem_append_left _ (List.mem_append_right _ (List.mem_singleton_self _))

/-- What has become true of the state became true in some step. -/
theorem exists_step_of_run {Q : σ → Prop} {s : σ} {is : List ι} (h0 : ¬ Q s)
    (h : Q (runFrom step s is)) : ∃ js i, js ++ [i] <+: is ∧ ¬ Q (runFrom step s js) ∧
      Q (step (runFrom step s js) i).2 := by
  induction is using List.reverseRecOn with
  | nil => exact absurd h h0
  | append_singleton is i ih =>
      by_cases hbefore : Q (runFrom step s is)
      · obtain ⟨js, j, hjs, hstep⟩ := ih hbefore
        exact ⟨js, j, hjs.trans (List.prefix_append _ _), hstep⟩
      · rw [runFrom_snoc] at h
        exact ⟨is, i, List.prefix_refl _, hbefore, h⟩

/-- **The history rule.**  A relation between histories and states that holds of the empty history
and survives one more input holds of every history and the state it leads to. -/
theorem runFrom_history (Inv : List ι → σ → Prop) {s : σ} (h0 : Inv [] s)
    (hstep : ∀ is t i, Inv is t → Inv (is ++ [i]) (step t i).2) (is : List ι) :
    Inv is (runFrom step s is) := by
  induction is using List.reverseRecOn with
  | nil => exact h0
  | append_singleton is i ih =>
      rw [runFrom_snoc]
      exact hstep is _ i ih

end Runs

/-! ### Components addressed by a key -/

/-- The state is a family of components indexed by `κ`.  An input is addressed to the component
`key i`; its output and the next value of that component depend on that component only, and every
other component stays as it was. -/
structure Componentwise (step : σ → ι → ω × σ) (key : ι → κ) (view : κ → σ → γ)
    (cstep : γ → ι → ω × γ) : Prop where
  out : ∀ s i, (step s i).1 = (cstep (view (key i) s) i).1
  own : ∀ s i, view (key i) (step s i).2 = (cstep (view (key i) s) i).2
  other : ∀ s i k, k ≠ key i → view k (step s i).2 = view k s

section Components

variable [DecidableEq κ] {step : σ → ι → ω × σ} {key : ι → κ} {view : κ → σ → γ}
  {cstep : γ → ι → ω × γ}

/-- **A component sees only its own inputs.** -/
theorem runFrom_component (h : Componentwise step key view cstep) (k : κ) (s : σ) (is : List ι) :
    view k (runFrom step s is) = runFrom cstep (view k s) (is.filter (key · = k)) := by
  induction is generalizing s with
  | nil => rfl
  | cons i is ih =>
      rw [runFrom_cons, ih]
      by_cases hk : key i = k
      · subst hk
        rw [List.filter_cons_of_pos (by simp), runFrom_cons, h.own]
      · rw [List.filter_cons_of_neg (by simpa using hk), h.other s i k (Ne.symm hk)]

/-- **The answers to the inputs of one component are the answers it gives on its own.** -/
theorem traceFrom_component (h : Componentwise step key view cstep) (k : κ) (s : σ) (is : List ι) :
    (traceFrom step s is).filter (fun e => key e.1 = k) =
      traceFrom cstep (view k s) (is.filter (key · = k)) := by
  induction is generalizing s with
  | nil => rfl
  | cons i is ih =>
      rw [traceFrom_cons]
      by_cases hk : key i = k
      · subst hk
        rw [List.filter_cons_of_pos (by simp), List.filter_cons_of_pos (by simp), traceFrom_cons, ih,
          h.own, h.out]
      · rw [List.filter_cons_of_neg (by simpa using hk), List.filter_cons_of_neg (by simpa using hk),
          ih, h.other s i k (Ne.symm hk)]

variable {is js : List ι}

theorem runFrom_component_congr (h : Componentwise step key view cstep) (s : σ) (k : κ)
    (hij : is.filter (key · = k) = js.filter (key · = k)) :
    view k (runFrom step s is) = view k (runFrom step s js) := by
  rw [runFrom_component h, runFrom_component h, hij]

theorem trace_filter_congr (h : Componentwise step key view cstep) (s : σ) (k : κ)
    (hij : is.filter (key · = k) = js.filter (key · = k)) :
    (traceFrom step s is).filter (fun e => key e.1 = k) =
      (traceFrom step s js).filter (fun e => key e.1 = k) := by
  rw [traceFrom_component h, traceFrom_component h, hij]

end Components

/-! ### Parts of a component -/

/-- A part of the state for each `k`.  `concerns k i` is what the input `i` means to the part `k`, and
`none` where it means nothing; an input may concern any number of parts.  A part it concerns makes the
step `part` and gives the answer; every other part stays as it was. -/
structure Projects {ι' τ : Type*} (step : σ → ι → ω × σ) (concerns : κ → ι → Option ι')
    (view : κ → σ → τ) (part : τ → ι' → ω × τ) : Prop where
  own : ∀ s i k j, concerns k i = some j → part (view k s) j = ((step s i).1, view k (step s i).2)
  other : ∀ s i k, concerns k i = none → view k (step s i).2 = view k s

/-- What a trace means to the part `k`. -/
def entriesOf {ι' : Type*} (concerns : κ → ι → Option ι') (k : κ) (t : List (ι × ω)) :
    List (ι' × ω) := t.filterMap fun e => (concerns k e.1).map (·, e.2)

theorem mem_entriesOf {ι' : Type*} {concerns : κ → ι → Option ι'} {k : κ} {t : List (ι × ω)}
    {j : ι'} {out : ω} :
    (j, out) ∈ entriesOf concerns k t ↔ ∃ i, (i, out) ∈ t ∧ concerns k i = some j := by
  rw [entriesOf, List.mem_filterMap]
  constructor
  · intro h
    obtain ⟨⟨i, out'⟩, hmem, hi⟩ := h
    obtain ⟨j', hj, hpair⟩ := Option.map_eq_some_iff.mp hi
    obtain ⟨rfl, rfl⟩ := Prod.mk.inj hpair
    exact ⟨i, hmem, hj⟩
  · intro h
    obtain ⟨i, hmem, hi⟩ := h
    exact ⟨(i, out), hmem, by rw [hi]; rfl⟩

section Projects

variable {ι' τ : Type*} {step : σ → ι → ω × σ} {concerns : κ → ι → Option ι'} {view : κ → σ → τ}
  {part : τ → ι' → ω × τ}

/-- **A part runs on the inputs that concern it**, whatever happens between them. -/
theorem runFrom_project (h : Projects step concerns view part) (k : κ) (s : σ) (is : List ι) :
    view k (runFrom step s is) = runFrom part (view k s) (is.filterMap (concerns k)) := by
  induction is generalizing s with
  | nil => rfl
  | cons i is ih =>
      rw [runFrom_cons, ih]
      cases hi : concerns k i with
      | none => rw [List.filterMap_cons_none hi, h.other s i k hi]
      | some j => rw [List.filterMap_cons_some hi, runFrom_cons, h.own s i k j hi]

/-- **So it does for its answers.** -/
theorem traceFrom_project (h : Projects step concerns view part) (k : κ) (s : σ) (is : List ι) :
    entriesOf concerns k (traceFrom step s is) =
      traceFrom part (view k s) (is.filterMap (concerns k)) := by
  unfold entriesOf
  induction is generalizing s with
  | nil => rfl
  | cons i is ih =>
      rw [traceFrom_cons]
      cases hi : concerns k i with
      | none =>
          rw [List.filterMap_cons_none hi, List.filterMap_cons_none (by rw [hi]; rfl), ih,
            h.other s i k hi]
      | some j =>
          rw [List.filterMap_cons_some hi, traceFrom_cons, h.own s i k j hi,
            List.filterMap_cons_some (b := (j, (step s i).1)) (by rw [hi]; rfl), ih]

end Projects

/-! ### Inputs that were accepted -/

section Accepted

variable {ε α : Type*}

/-- The inputs of a trace whose output is a success. -/
def accepted (t : List (ι × Except ε α)) : List ι :=
  (t.filter fun e => e.2.isOk).map Prod.fst

@[simp] theorem accepted_nil : accepted ([] : List (ι × Except ε α)) = [] := rfl

theorem accepted_append (t u : List (ι × Except ε α)) :
    accepted (t ++ u) = accepted t ++ accepted u := by
  simp only [accepted, List.filter_append, List.map_append]

@[simp] theorem accepted_singleton_ok (i : ι) (a : α) :
    accepted [(i, (Except.ok a : Except ε α))] = [i] := rfl

@[simp] theorem accepted_singleton_error (i : ι) (e : ε) :
    accepted [(i, (Except.error e : Except ε α))] = [] := rfl

/-- A longer run accepts more. -/
theorem accepted_mono (step : σ → ι → Except ε α × σ) (s : σ) {is js : List ι} (h : js <+: is) :
    accepted (traceFrom step s js) <+: accepted (traceFrom step s is) := by
  obtain ⟨rest, rfl⟩ := h
  rw [traceFrom_append, accepted_append]
  exact List.prefix_append _ _

theorem mem_accepted {t : List (ι × Except ε α)} {i : ι} :
    i ∈ accepted t ↔ ∃ a, (i, .ok a) ∈ t := by
  rw [accepted, List.mem_map]
  constructor
  · intro h
    obtain ⟨⟨j, out⟩, hmem, rfl⟩ := h
    rw [List.mem_filter] at hmem
    cases out with
    | error e => cases hmem.2
    | ok a => exact ⟨a, hmem.1⟩
  · intro h
    obtain ⟨a, hmem⟩ := h
    exact ⟨(i, .ok a), List.mem_filter.mpr ⟨hmem, rfl⟩, rfl⟩

/-- What was accepted was an input. -/
theorem mem_of_mem_accepted {step : σ → ι → Except ε α × σ} {s : σ} {is : List ι} {i : ι}
    (h : i ∈ accepted (traceFrom step s is)) : i ∈ is := by
  induction is generalizing s with
  | nil => cases h
  | cons j is ih =>
      have hcons : accepted (traceFrom step s (j :: is)) =
          accepted [(j, (step s j).1)] ++ accepted (traceFrom step (step s j).2 is) :=
        accepted_append [(j, (step s j).1)] (traceFrom step (step s j).2 is)
      rw [hcons, List.mem_append] at h
      rcases h with h | h
      · cases hout : (step s j).1 with
        | error e =>
            rw [hout, accepted_singleton_error] at h
            cases h
        | ok a =>
            rw [hout, accepted_singleton_ok, List.mem_singleton] at h
            rw [h]
            exact List.mem_cons_self
      · exact List.mem_cons_of_mem j (ih h)

/-- What the accepted inputs produced, in order. -/
def produced {β : Type*} (t : List (ι × Except ε (List β))) : List β :=
  t.flatMap fun e => e.2.toOption.getD []

@[simp] theorem produced_nil {β : Type*} : produced ([] : List (ι × Except ε (List β))) = [] := rfl

theorem produced_append {β : Type*} (t u : List (ι × Except ε (List β))) :
    produced (t ++ u) = produced t ++ produced u := List.flatMap_append

@[simp] theorem produced_cons_ok {β : Type*} (i : ι) (bs : List β)
    (t : List (ι × Except ε (List β))) : produced ((i, .ok bs) :: t) = bs ++ produced t := rfl

@[simp] theorem produced_cons_error {β : Type*} (i : ι) (e : ε)
    (t : List (ι × Except ε (List β))) : produced ((i, .error e) :: t) = produced t := rfl

@[simp] theorem produced_singleton_ok {β : Type*} (i : ι) (bs : List β) :
    produced [(i, (Except.ok bs : Except ε (List β)))] = bs := List.append_nil bs

@[simp] theorem produced_singleton_error {β : Type*} (i : ι) (e : ε) :
    produced [(i, (Except.error e : Except ε (List β)))] = [] := rfl

/-- A longer run produces more. -/
theorem produced_mono {β : Type*} (step : σ → ι → Except ε (List β) × σ) (s : σ) {is js : List ι}
    (h : js <+: is) : produced (traceFrom step s js) <+: produced (traceFrom step s is) := by
  obtain ⟨rest, rfl⟩ := h
  rw [traceFrom_append, produced_append]
  exact List.prefix_append _ _

theorem mem_produced {β : Type*} {t : List (ι × Except ε (List β))} {b : β} :
    b ∈ produced t ↔ ∃ i bs, (i, .ok bs) ∈ t ∧ b ∈ bs := by
  rw [produced, List.mem_flatMap]
  constructor
  · intro h
    obtain ⟨⟨i, out⟩, hmem, hb⟩ := h
    cases out with
    | error e => cases hb
    | ok bs => exact ⟨i, bs, hmem, hb⟩
  · intro h
    obtain ⟨i, bs, hmem, hb⟩ := h
    exact ⟨(i, .ok bs), hmem, hb⟩

/-- A rejected input leaves the state as it was. -/
def RejectsCleanly (step : σ → ι → Except ε α × σ) : Prop :=
  ∀ s i e, (step s i).1 = .error e → (step s i).2 = s

section RejectsCleanly

variable {step : σ → ι → Except ε α × σ}

/-- **The acceptance rule.**  A relation between histories and states that survives every accepted
input holds of the accepted part of every history. -/
theorem accepted_history (hclean : RejectsCleanly step) (Inv : List ι → σ → Prop) {s : σ}
    (h0 : Inv [] s)
    (hstep : ∀ is t i a, Inv is t → (step t i).1 = .ok a → Inv (is ++ [i]) (step t i).2)
    (is : List ι) : Inv (accepted (traceFrom step s is)) (runFrom step s is) := by
  induction is using List.reverseRecOn with
  | nil => exact h0
  | append_singleton is i ih =>
      rw [traceFrom_snoc, accepted_append, runFrom_snoc]
      cases hout : (step (runFrom step s is) i).1 with
      | error e =>
          rw [accepted_singleton_error, List.append_nil, hclean _ _ e hout]
          exact ih
      | ok a =>
          rw [accepted_singleton_ok]
          exact hstep _ _ i a ih hout

/-- The accepted inputs alone lead to the same state. -/
theorem runFrom_accepted (hclean : RejectsCleanly step) (s : σ) (is : List ι) :
    runFrom step s (accepted (traceFrom step s is)) = runFrom step s is := by
  refine accepted_history hclean (fun is t => runFrom step s is = t) rfl ?_ is
  intro is t i a hrun _
  rw [runFrom_snoc, hrun]

end RejectsCleanly

/-- The accepted inputs alone produce the same. -/
theorem produced_accepted {β : Type*} {step : σ → ι → Except ε (List β) × σ}
    (hclean : RejectsCleanly step) (s : σ) (is : List ι) :
    produced (traceFrom step s (accepted (traceFrom step s is))) =
      produced (traceFrom step s is) := by
  induction is using List.reverseRecOn with
  | nil => rfl
  | append_singleton is i ih =>
      rw [traceFrom_snoc, accepted_append, produced_append]
      cases hout : (step (runFrom step s is) i).1 with
      | error e =>
          rw [accepted_singleton_error, produced_singleton_error, List.append_nil, List.append_nil]
          exact ih
      | ok bs =>
          rw [accepted_singleton_ok, traceFrom_snoc, produced_append, runFrom_accepted hclean, ih,
            hout]

end Accepted

/-! ### Runs that a refusal ends -/

section UntilError

variable {ε α : Type*} (step : σ → ι → Except ε α × σ)

/-- One input after the other, until one is refused. -/
def untilError (s : σ) : List ι → Except ε Unit × σ
  | [] => (.ok (), s)
  | i :: is =>
      match step s i with
      | (.error e, s) => (.error e, s)
      | (.ok _, s) => untilError s is

theorem untilError_cons_error {s t : σ} {i : ι} {e : ε} (h : step s i = (.error e, t))
    (is : List ι) : untilError step s (i :: is) = (.error e, t) := by
  rw [untilError, h]

theorem untilError_cons_ok {s t : σ} {i : ι} {a : α} (h : step s i = (.ok a, t)) (is : List ι) :
    untilError step s (i :: is) = untilError step t is := by
  rw [untilError, h]

theorem untilError_append (s : σ) (is js : List ι) :
    untilError step s (is ++ js) =
      match untilError step s is with
      | (.error e, s) => (.error e, s)
      | (.ok _, s) => untilError step s js := by
  induction is generalizing s with
  | nil => rfl
  | cons i is ih =>
      rw [List.cons_append]
      rcases h : step s i with ⟨e | a, t⟩
      · rw [untilError_cons_error step h, untilError_cons_error step h]
      · rw [untilError_cons_ok step h, untilError_cons_ok step h, ih]

/-- **Either everything is accepted, or an input is refused, everything before it is accepted and nothing
after it happens.** -/
theorem untilError_cases (s : σ) (is : List ι) :
    untilError step s is = (.ok (), runFrom step s is) ∧ accepted (traceFrom step s is) = is ∨
    ∃ before i rest e, is = before ++ i :: rest ∧ accepted (traceFrom step s before) = before ∧
      (step (runFrom step s before) i).1 = .error e ∧
      untilError step s is = (.error e, runFrom step s (before ++ [i])) := by
  induction is generalizing s with
  | nil => exact .inl ⟨rfl, rfl⟩
  | cons i is ih =>
      rcases h : step s i with ⟨e | a, t⟩
      · refine .inr ⟨[], i, is, e, rfl, rfl, by rw [runFrom_nil, h], ?_⟩
        rw [untilError_cons_error step h, List.nil_append, runFrom_cons, h, runFrom_nil]
      · have haccepted (js : List ι) : accepted (traceFrom step s (i :: js)) =
            i :: accepted (traceFrom step t js) := by
          rw [traceFrom_cons, h]
          rfl
        rw [untilError_cons_ok step h, haccepted]
        rcases ih t with ⟨hrun, hall⟩ | ⟨before, j, rest, e, rfl, hbefore, herr, hrun⟩
        · refine .inl ⟨?_, by rw [hall]⟩
          rw [hrun, runFrom_cons, h]
        · refine .inr ⟨i :: before, j, rest, e, rfl, by rw [haccepted, hbefore], ?_, ?_⟩
          · rw [runFrom_cons, h, herr]
          · rw [hrun, List.cons_append, runFrom_cons, h]

/-- The number of accepted inputs. -/
theorem length_accepted_le (s : σ) (is : List ι) :
    (accepted (traceFrom step s is)).length ≤ is.length := by
  induction is using List.reverseRecOn with
  | nil => exact Nat.le_refl 0
  | append_singleton is i ih =>
      rw [traceFrom_snoc, accepted_append, List.length_append, List.length_append]
      cases (step (runFrom step s is) i).1 with
      | error e =>
          rw [accepted_singleton_error]
          exact Nat.le_succ_of_le ih
      | ok a =>
          rw [accepted_singleton_ok]
          exact Nat.succ_le_succ ih

/-- Everything is accepted when everything before the last input is, and then the last. -/
theorem accepted_snoc_eq_iff (s : σ) (is : List ι) (i : ι) :
    accepted (traceFrom step s (is ++ [i])) = is ++ [i] ↔
      accepted (traceFrom step s is) = is ∧ ∃ a, (step (runFrom step s is) i).1 = .ok a := by
  rw [traceFrom_snoc, accepted_append]
  cases hout : (step (runFrom step s is) i).1 with
  | error e =>
      rw [accepted_singleton_error, List.append_nil]
      refine iff_of_false ?_ fun h => ?_
      · intro h
        have hlen := length_accepted_le step s is
        rw [h, List.length_append, List.length_singleton] at hlen
        omega
      · obtain ⟨-, a, ha⟩ := h
        cases ha
  | ok a =>
      rw [accepted_singleton_ok, List.append_left_inj]
      exact ⟨fun h => ⟨h, a, rfl⟩, fun h => h.1⟩

end UntilError

/-! ### Runs that an answer ends -/

section UntilFatal

variable (fatal : ω → Prop) [DecidablePred fatal] (step : σ → ι → ω × σ)

/-- The same component, except that a fatal answer is its last. -/
def untilFatal : Option σ → ι → Option ω × Option σ
  | none, _ => (none, none)
  | some s, i => (some (step s i).1, if fatal (step s i).1 then none else some (step s i).2)

theorem runFrom_untilFatal_none (is : List ι) : runFrom (untilFatal fatal step) none is = none := by
  induction is with
  | nil => rfl
  | cons i is ih => exact ih

/-- **A run ends with the first fatal answer**, and there is one among the component's own. -/
theorem runFrom_untilFatal_eq_none_iff (s : σ) (is : List ι) :
    runFrom (untilFatal fatal step) (some s) is = none ↔
      ∃ e ∈ traceFrom step s is, fatal e.2 := by
  induction is generalizing s with
  | nil => simp
  | cons i is ih =>
      rw [runFrom_cons, traceFrom_cons, List.exists_mem_cons_iff, untilFatal]
      by_cases hi : fatal (step s i).1
      · rw [if_pos hi]
        exact iff_of_true (runFrom_untilFatal_none fatal step is) (.inl hi)
      · rw [if_neg hi, ih]
        exact (or_iff_right hi).symm

/-- Until then it is the run of the component. -/
theorem runFrom_untilFatal_eq_some {s t : σ} {is : List ι}
    (h : runFrom (untilFatal fatal step) (some s) is = some t) : runFrom step s is = t := by
  induction is generalizing s with
  | nil => exact Option.some.inj h
  | cons i is ih =>
      rw [runFrom_cons, untilFatal] at h
      by_cases hi : fatal (step s i).1
      · rw [if_pos hi, runFrom_untilFatal_none] at h
        cases h
      · rw [if_neg hi] at h
        exact ih h

end UntilFatal

end StepRuns
