import RustApi.Lib.Text

/-!
# Computations that may panic

A Rust function that is not total in the obvious way (it indexes a slice, unwraps a `Result`, does
arithmetic on machine integers) is a function into `Run α`: a value, or the panic that ended it.
Arithmetic is checked, as in a debug build; where no overflow is reachable a release build, which
wraps, computes the same.

`Run` is `Except Panic`, so the code's sequencing is `do` notation, and a proof that a function never
panics is an equation `f x = .ok y`.
-/

namespace RustStd

/-- Why a computation stopped. -/
inductive Panic
  | indexOutOfBounds
  | arithmeticOverflow
  | unwrapFailed
  | expectFailed (message : Str)
  | capacityOverflow
  deriving DecidableEq, Repr

/-- A computation that returns a value or panics. -/
abbrev Run (α : Type) := Except Panic α

namespace Run

variable {α β : Type}

@[simp] theorem ok_bind (a : α) (f : α → Run β) : ((.ok a : Run α) >>= f) = f a := rfl

@[simp] theorem error_bind (p : Panic) (f : α → Run β) : ((.error p : Run α) >>= f) = .error p := rfl

@[simp] theorem pure_eq_ok (a : α) : (pure a : Run α) = .ok a := rfl

/-- Wrapping the value of a computation does not change whether there is one. -/
theorem bind_ok_eq_iff {ε : Type} {x : Run α} {a : α} :
    (do
      let a ← x
      pure (.ok a) : Run (Except ε α)) = .ok (.ok a) ↔ x = .ok a := by
  cases x with
  | error p => simp
  | ok b => simp

end Run

/-- `xs[i]`. -/
def index {α : Type} (xs : List α) (i : ℕ) : Run α :=
  match xs[i]? with
  | some a => .ok a
  | none => .error .indexOutOfBounds

theorem index_eq_ok {α : Type} {xs : List α} {i : ℕ} {a : α} (h : xs[i]? = some a) :
    index xs i = .ok a := by
  rw [index, h]

/-- `a + b` on `u8`. -/
def addU8 (a b : UInt8) : Run UInt8 :=
  if a.toNat + b.toNat < 256 then .ok (a + b) else .error .arithmeticOverflow

/-- `a * b` on `u8`. -/
def mulU8 (a b : UInt8) : Run UInt8 :=
  if a.toNat * b.toNat < 256 then .ok (a * b) else .error .arithmeticOverflow

/-- `a - b` on `usize`. -/
def subUsize (a b : ℕ) : Run ℕ := if b ≤ a then .ok (a - b) else .error .arithmeticOverflow

/-- `result.unwrap()`, the error being forgotten. -/
def unwrap {α : Type} : Option α → Run α
  | some a => .ok a
  | none => .error .unwrapFailed

/-- `result.expect(message)`. -/
def expect {α : Type} (message : Str) : Option α → Run α
  | some a => .ok a
  | none => .error (.expectFailed message)

end RustStd
