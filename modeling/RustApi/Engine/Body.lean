import RustApi.Lib.Panic

/-!
# Collecting a request body

A body arrives as frames; it is the list of results that successive `frame` calls yield, each a frame
or a read error.  `collectBody` appends the data frames and counts down what may still come.

`Readable` says which bodies can be collected under a limit: every frame is read and the data fit.
`collectStep_data` is the one round that subtracts, and never underflows; `collectLoop_spec` follows
the rounds frame by frame.  `LoopState` are the states at the head of each round; `collectBody_exact` puts
together what holds of them and of the result.
-/

namespace RustApi

open RustStd

/-- One frame of a body. -/
inductive Frame
  | data (bytes : Bytes)
  | trailers
  deriving DecidableEq, Repr

/-- The two variables of `collect_body`. -/
structure CollectState where
  collected : Bytes
  remaining : ℕ
  deriving DecidableEq, Repr

def bodyTooLarge (maxBytes : ℕ) : Str :=
  "request body exceeds max size of ".toList ++ Nat.toDigits 10 maxBytes ++ " bytes".toList

/-- One round of the loop: an error ends it. -/
def collectStep (maxBytes : ℕ) (s : CollectState) :
    Except Str Frame → Run (Except Str CollectState)
  | .error e => .ok (.error e)
  | .ok .trailers => .ok (.ok s)
  | .ok (.data data) =>
      if data.length > s.remaining then .ok (.error (bodyTooLarge maxBytes))
      else do
        let remaining ← subUsize s.remaining data.length
        pure (.ok ⟨s.collected ++ data, remaining⟩)

/-- `while let Some(frame) = body.frame().await`. -/
def collectLoop (maxBytes : ℕ) (s : CollectState) : List (Except Str Frame) → Run (Except Str Bytes)
  | [] => .ok (.ok s.collected)
  | frame :: frames => do
      match ← collectStep maxBytes s frame with
      | .error e => pure (.error e)
      | .ok s => collectLoop maxBytes s frames

def collectBody (body : List (Except Str Frame)) (maxBytes : ℕ) : Run (Except Str Bytes) :=
  collectLoop maxBytes ⟨[], maxBytes⟩ body

/-! ### What can be collected -/

/-- The bytes a result adds to the body. -/
def frameData : Except Str Frame → Bytes
  | .ok (.data data) => data
  | _ => []

/-- The data frames in order, one after the other. -/
def dataOf (body : List (Except Str Frame)) : Bytes := body.flatMap frameData

/-- Every frame is read without error, and the data total at most `n` bytes. -/
def Readable (body : List (Except Str Frame)) (n : ℕ) : Prop :=
  (∀ frame ∈ body, ∃ f, frame = .ok f) ∧ (dataOf body).length ≤ n

theorem readable_nil (n : ℕ) : Readable [] n := ⟨by simp, Nat.zero_le n⟩

theorem not_readable_error (e : Str) (body : List (Except Str Frame)) (n : ℕ) :
    ¬ Readable (.error e :: body) n := by
  intro h
  obtain ⟨f, hf⟩ := h.1 (.error e) List.mem_cons_self
  cases hf

theorem readable_trailers (body : List (Except Str Frame)) (n : ℕ) :
    Readable (.ok .trailers :: body) n ↔ Readable body n := by
  unfold Readable
  rw [List.forall_mem_cons]
  exact ⟨fun h => ⟨h.1.2, h.2⟩, fun h => ⟨⟨⟨_, rfl⟩, h.1⟩, h.2⟩⟩

theorem readable_data (data : Bytes) (body : List (Except Str Frame)) (n : ℕ) :
    Readable (.ok (.data data) :: body) n ↔
      data.length ≤ n ∧ Readable body (n - data.length) := by
  have hdata : dataOf (.ok (.data data) :: body) = data ++ dataOf body := rfl
  unfold Readable
  rw [List.forall_mem_cons, hdata, List.length_append]
  constructor
  · intro h
    exact ⟨by omega, h.1.2, by omega⟩
  · intro h
    exact ⟨⟨⟨_, rfl⟩, h.2.1⟩, by omega⟩

/-- A data frame: the subtraction is guarded, so it never underflows. -/
theorem collectStep_data (maxBytes : ℕ) (s : CollectState) (data : Bytes) :
    collectStep maxBytes s (.ok (.data data)) = .ok (if data.length ≤ s.remaining
      then .ok ⟨s.collected ++ data, s.remaining - data.length⟩
      else .error (bodyTooLarge maxBytes)) := by
  rw [collectStep]
  by_cases hfit : data.length ≤ s.remaining
  · rw [if_neg (by omega), if_pos hfit, subUsize, if_pos hfit]
    rfl
  · rw [if_pos (by omega), if_neg hfit]

/-- **The loop collects what is readable under the count that remains, and fails otherwise.** -/
theorem collectLoop_spec (maxBytes : ℕ) (s : CollectState) (body : List (Except Str Frame)) :
    (Readable body s.remaining →
      collectLoop maxBytes s body = .ok (.ok (s.collected ++ dataOf body))) ∧
    (¬ Readable body s.remaining → ∃ e, collectLoop maxBytes s body = .ok (.error e)) := by
  induction body generalizing s with
  | nil =>
      refine ⟨fun _ => ?_, fun h => absurd (readable_nil _) h⟩
      rw [collectLoop, show dataOf [] = [] from rfl, List.append_nil]
  | cons frame body ih =>
      cases frame with
      | error e => exact ⟨fun h => absurd h (not_readable_error e body _), fun _ => ⟨e, rfl⟩⟩
      | ok frame =>
          cases frame with
          | trailers =>
              rw [readable_trailers]
              exact ih s
          | data data =>
              rw [readable_data, collectLoop, collectStep_data]
              by_cases hfit : data.length ≤ s.remaining
              · rw [if_pos hfit, Run.ok_bind]
                obtain ⟨hok, herr⟩ := ih ⟨s.collected ++ data, s.remaining - data.length⟩
                refine ⟨?_, fun h => herr fun hread => h ⟨hfit, hread⟩⟩
                intro h
                show collectLoop maxBytes _ body = _
                rw [hok h.2, List.append_assoc]
                rfl
              · rw [if_neg hfit]
                exact ⟨fun h => absurd h.1 hfit, fun _ => ⟨_, rfl⟩⟩

theorem collectBody_of_readable {body : List (Except Str Frame)} {maxBytes : ℕ}
    (h : Readable body maxBytes) : collectBody body maxBytes = .ok (.ok (dataOf body)) :=
  (collectLoop_spec maxBytes ⟨[], maxBytes⟩ body).1 h

theorem collectBody_of_not_readable {body : List (Except Str Frame)} {maxBytes : ℕ}
    (h : ¬ Readable body maxBytes) : ∃ e, collectBody body maxBytes = .ok (.error e) :=
  (collectLoop_spec maxBytes ⟨[], maxBytes⟩ body).2 h

/-! ### The states the loop goes through -/

/-- Every frame is read without error. -/
def AllRead (body : List (Except Str Frame)) : Prop := ∀ frame ∈ body, ∃ f, frame = .ok f

/-- The variables at the head of a round, beside the frames that are still to come. -/
inductive LoopState (maxBytes : ℕ) (body : List (Except Str Frame)) :
    CollectState → List (Except Str Frame) → Prop
  | start : LoopState maxBytes body ⟨[], maxBytes⟩ body
  | round {s s' : CollectState} {frame : Except Str Frame} {rest : List (Except Str Frame)} :
      LoopState maxBytes body s (frame :: rest) → collectStep maxBytes s frame = .ok (.ok s') →
      LoopState maxBytes body s' rest

/-- No round panics, whatever the variables are. -/
theorem collectStep_returns (maxBytes : ℕ) (s : CollectState) (frame : Except Str Frame) :
    ∃ out, collectStep maxBytes s frame = .ok out := by
  cases frame with
  | error e => exact ⟨_, rfl⟩
  | ok frame =>
      cases frame with
      | trailers => exact ⟨_, rfl⟩
      | data data => exact ⟨_, collectStep_data maxBytes s data⟩

/-- A round that goes on moves the frame's bytes from the count to the buffer. -/
theorem collectStep_ok {maxBytes : ℕ} {s s' : CollectState} {frame : Except Str Frame}
    (h : collectStep maxBytes s frame = .ok (.ok s')) :
    s'.collected = s.collected ++ frameData frame ∧
      s'.remaining + (frameData frame).length = s.remaining := by
  cases frame with
  | error e => cases h
  | ok frame =>
      cases frame with
      | trailers =>
          cases h
          exact ⟨(List.append_nil _).symm, rfl⟩
      | data data =>
          rw [collectStep_data] at h
          by_cases hfit : data.length ≤ s.remaining
          · rw [if_pos hfit] at h
            cases h
            exact ⟨rfl, Nat.sub_add_cancel hfit⟩
          · rw [if_neg hfit] at h
            cases h

/-- **The budget invariant**: what is buffered and what may still come make up the limit. -/
theorem LoopState.budget {maxBytes : ℕ} {body rest : List (Except Str Frame)} {s : CollectState}
    (h : LoopState maxBytes body s rest) : s.remaining + s.collected.length = maxBytes := by
  induction h with
  | start => rfl
  | round _ hstep ih =>
      obtain ⟨hcollected, hremaining⟩ := collectStep_ok hstep
      rw [hcollected, List.length_append]
      omega

/-- What is buffered is what has come so far. -/
theorem LoopState.collected_append {maxBytes : ℕ} {body rest : List (Except Str Frame)}
    {s : CollectState} (h : LoopState maxBytes body s rest) :
    s.collected ++ dataOf rest = dataOf body := by
  induction h with
  | start => rfl
  | round _ hstep ih =>
      obtain ⟨hcollected, -⟩ := collectStep_ok hstep
      rw [← ih, hcollected, List.append_assoc]
      rfl

/-- What the loop returns is decided by the variables and the frames still to come. -/
theorem LoopState.collectLoop_eq {maxBytes : ℕ} {body rest : List (Except Str Frame)}
    {s : CollectState} (h : LoopState maxBytes body s rest) :
    collectLoop maxBytes s rest = collectBody body maxBytes := by
  induction h with
  | start => rfl
  | round _ hstep ih =>
      rw [← ih, collectLoop, hstep]
      rfl

/-- Frames that are all read but hold too much are refused, always with the same text. -/
theorem collectLoop_of_too_large {maxBytes : ℕ} {s : CollectState}
    {body : List (Except Str Frame)} (hread : AllRead body)
    (h : s.remaining < (dataOf body).length) :
    collectLoop maxBytes s body = .ok (.error (bodyTooLarge maxBytes)) := by
  induction body generalizing s with
  | nil => exact absurd h (Nat.not_lt_zero _)
  | cons frame body ih =>
      obtain ⟨⟨frame, rfl⟩, hrest⟩ := List.forall_mem_cons.mp hread
      cases frame with
      | trailers => exact ih hrest h
      | data data =>
          rw [collectLoop, collectStep_data]
          by_cases hfit : data.length ≤ s.remaining
          · have hdata : dataOf (.ok (.data data) :: body) = data ++ dataOf body := rfl
            rw [hdata, List.length_append] at h
            rw [if_pos hfit, Run.ok_bind]
            exact ih hrest (show s.remaining - data.length < (dataOf body).length by omega)
          · rw [if_neg hfit]
            rfl

/-- What becomes of frames that are all read depends on their bytes only. -/
theorem collectBody_of_allRead {maxBytes : ℕ} {body : List (Except Str Frame)}
    (hread : AllRead body) :
    collectBody body maxBytes = .ok (if (dataOf body).length ≤ maxBytes
      then .ok (dataOf body) else .error (bodyTooLarge maxBytes)) := by
  by_cases hfit : (dataOf body).length ≤ maxBytes
  · rw [if_pos hfit]
    exact collectBody_of_readable ⟨hread, hfit⟩
  · rw [if_neg hfit]
    exact collectLoop_of_too_large hread (show maxBytes < (dataOf body).length by omega)

/-- **Collecting under a limit is exact and does not see the chunks.**  The body is returned whole
exactly when it is readable and is refused otherwise; in every round the budget invariant holds, so
the buffer never outgrows the limit and the subtraction never underflows; and two bodies that are
read without error and carry the same bytes have the same outcome. -/
theorem collectBody_exact (maxBytes : ℕ) (body : List (Except Str Frame)) :
    (∀ b, collectBody body maxBytes = .ok (.ok b) ↔ Readable body maxBytes ∧ b = dataOf body) ∧
    (¬ Readable body maxBytes → ∃ e, collectBody body maxBytes = .ok (.error e)) ∧
    (∀ s rest, LoopState maxBytes body s rest →
      s.remaining + s.collected.length = maxBytes ∧ s.collected.length ≤ maxBytes ∧
      (∀ frame, ∃ out, collectStep maxBytes s frame = .ok out) ∧
      collectLoop maxBytes s rest = collectBody body maxBytes) ∧
    (∀ body', AllRead body → AllRead body' → dataOf body = dataOf body' →
      collectBody body maxBytes = collectBody body' maxBytes) := by
  refine ⟨?_, collectBody_of_not_readable, ?_, ?_⟩
  · intro b
    by_cases hread : Readable body maxBytes
    · rw [collectBody_of_readable hread]
      simp [hread, eq_comm]
    · obtain ⟨e, he⟩ := collectBody_of_not_readable hread
      simp [he, hread]
  · intro s rest h
    have hbudget := h.budget
    exact ⟨hbudget, by omega, collectStep_returns maxBytes s, h.collectLoop_eq⟩
  · intro body' hread hread' hsame
    rw [collectBody_of_allRead hread, collectBody_of_allRead hread', hsame]

end RustApi
