import RustApi.Lib.HashMap
import RustApi.Lib.Text

/-!
# Python values and PyO3

The values a handler can return, as far as the conversion looks at them, and the functions of PyO3 and
of Python's `json` module that look.

A Python `str` may hold lone surrogates, which no Rust string can.  A value outside the built-in types
is an `object`: what its `__index__` returns, if it has one, and its elements, if its class counts as
a sequence.  `PyVal.index` and `PyVal.items` read these two off any value.

PyO3 is not part of the repository: it is a parameter, and `PyO3.Documented` says which values each
extraction accepts.
-/

namespace RustApi

open RustStd

/-- The Python-visible response. -/
structure PyResponse where
  statusCode : UInt16
  headers : IteratedMap Str Str
  body : Bytes
  contentType : Str

/-- A code point of a Python `str`: a scalar value, or one of the 2048 surrogates. -/
inductive PyChar
  | scalar (c : Char)
  | surrogate (n : Fin 2048)
  deriving DecidableEq, Repr

/-- The Python `str` of a Rust string. -/
def pyStr (s : Str) : List PyChar := s.map .scalar

/-- A Python value. -/
inductive PyVal
  | response (r : PyResponse)
  | str (s : List PyChar)
  | bytes (b : Bytes)
  | bytearray (b : Bytes)
  | none
  | bool (b : Bool)
  | int (i : ℤ)
  | list (xs : List PyVal)
  | tuple (xs : List PyVal)
  | dict (kvs : List (PyVal × PyVal))
  | object (cls : Str) (index : Option ℤ) (items : Option (List PyVal))

namespace PyVal

/-- What `operator.index` returns. -/
def index : PyVal → Option ℤ
  | bool b => some (if b then 1 else 0)
  | int i => some i
  | object _ i _ => i
  | _ => Option.none

/-- The elements of a sequence other than `str`, `bytes` and `bytearray`. -/
def items : PyVal → Option (List PyVal)
  | list xs => some xs
  | tuple xs => some xs
  | object _ _ xs => xs
  | _ => Option.none

/-- The byte a value converts to: its index has to lie in `0..=255`. -/
def asU8 (v : PyVal) : Option UInt8 :=
  match v.index with
  | some i => if 0 ≤ i ∧ i ≤ 255 then some (UInt8.ofNat i.toNat) else Option.none
  | Option.none => Option.none

/-- A sequence, other than `str`, `bytes` and `bytearray`, whose elements all convert to a byte. -/
def ByteItems (v : PyVal) : Prop := ∃ xs, v.items = some xs ∧ ∀ x ∈ xs, x.asU8.isSome

/-- A `Response`, a `str` that UTF-8 can encode, `bytes` or `bytearray`: the types with an arm. -/
inductive HasArm : PyVal → Prop
  | response (r : PyResponse) : HasArm (.response r)
  | str (s : Str) : HasArm (.str (pyStr s))
  | bytes (b : Bytes) : HasArm (.bytes b)
  | bytearray (b : Bytes) : HasArm (.bytearray b)

theorem HasArm.items_eq_none {v : PyVal} (h : v.HasArm) : v.items = Option.none := by
  cases h <;> rfl

end PyVal

/-- The functions of PyO3 that are called, and `json.dumps`.  An exception is represented by the text it
displays, which begins with its class. -/
structure PyO3 where
  extractResponse : PyVal → Option PyResponse
  extractString : PyVal → Except Str Str
  extractVecU8 : PyVal → Option Bytes
  dumps : PyVal → Except Str PyVal

/-- Which values the extractions accept; `json.dumps` returns a `str` that can be encoded. -/
structure PyO3.Documented (P : PyO3) : Prop where
  extractResponse_eq : ∀ v r, P.extractResponse v = some r ↔ v = .response r
  extractString_eq : ∀ v s, P.extractString v = .ok s ↔ v = .str (pyStr s)
  extractVecU8_eq : ∀ v b, P.extractVecU8 v = some b ↔
    v = .bytes b ∨ v = .bytearray b ∨ ∃ xs, v.items = some xs ∧ xs.map PyVal.asU8 = b.map some
  dumps_str : ∀ v w, P.dumps v = .ok w → ∃ s, w = .str (pyStr s)

namespace PyO3.Documented

variable {P : PyO3} (hP : P.Documented)

include hP

theorem extractResponse_none {v : PyVal} (h : ∀ r, v ≠ .response r) :
    P.extractResponse v = none := by
  rw [Option.eq_none_iff_forall_ne_some]
  intro r hr
  exact h r ((hP.extractResponse_eq v r).mp hr)

theorem extractString_error {v : PyVal} (h : ∀ s, v ≠ .str (pyStr s)) :
    ∃ e, P.extractString v = .error e := by
  cases hv : P.extractString v with
  | error e => exact ⟨e, rfl⟩
  | ok s => exact absurd ((hP.extractString_eq v s).mp hv) (h s)

theorem extractString_str (s : Str) : P.extractString (.str (pyStr s)) = .ok s :=
  (hP.extractString_eq _ s).mpr rfl

/-- A value without an arm of its own is taken for bytes exactly when it is a sequence of small
integers. -/
theorem extractVecU8_isSome {v : PyVal} (h : ¬ v.HasArm) :
    (P.extractVecU8 v).isSome ↔ v.ByteItems := by
  rw [Option.isSome_iff_exists]
  constructor
  · intro hb
    obtain ⟨b, hb⟩ := hb
    rcases (hP.extractVecU8_eq v b).mp hb with rfl | rfl | ⟨xs, hxs, hmap⟩
    · exact absurd (.bytes b) h
    · exact absurd (.bytearray b) h
    · refine ⟨xs, hxs, ?_⟩
      intro x hx
      have hmem : x.asU8 ∈ b.map some := by
        rw [← hmap]
        exact List.mem_map_of_mem hx
      obtain ⟨y, -, hy⟩ := List.mem_map.mp hmem
      rw [← hy]
      rfl
  · intro hitems
    obtain ⟨xs, hxs, hall⟩ := hitems
    refine ⟨xs.filterMap PyVal.asU8, (hP.extractVecU8_eq v _).mpr (.inr (.inr ⟨xs, hxs, ?_⟩))⟩
    clear hxs
    induction xs with
    | nil => rfl
    | cons x xs ih =>
        rw [List.forall_mem_cons] at hall
        obtain ⟨y, hy⟩ := Option.isSome_iff_exists.mp hall.1
        rw [List.map_cons, List.filterMap_cons_some hy, List.map_cons, hy, ih hall.2]

end PyO3.Documented

/-! ### A reference implementation -/

/-- The character of a code point that is no surrogate. -/
def PyChar.scalar? : PyChar → Option Char
  | .scalar c => some c
  | .surrogate _ => none

/-- The Rust string of a Python `str` without surrogates. -/
def plainString (s : List PyChar) : Option Str := collectSome (s.map PyChar.scalar?)

theorem plainString_eq_some {s : List PyChar} {t : Str} : plainString s = some t ↔ s = pyStr t := by
  rw [plainString, collectSome_eq_some]
  constructor
  · intro h
    induction t generalizing s with
    | nil => exact List.map_eq_nil_iff.mp h
    | cons d t ih =>
        cases s with
        | nil => cases h
        | cons c s =>
            rw [List.map_cons, List.map_cons, List.cons.injEq] at h
            cases c with
            | surrogate n => cases h.1
            | scalar c =>
                rw [ih h.2, Option.some.inj h.1]
                rfl
  · intro h
    rw [h, pyStr, List.map_map]
    rfl

def plainVecU8 : PyVal → Option Bytes
  | .bytes b => some b
  | .bytearray b => some b
  | v => v.items.bind fun xs => collectSome (xs.map PyVal.asU8)

/-- JSON text of a value that is no container and no `str`. -/
def plainScalar : PyVal → Option Str
  | .none => some "null".toList
  | .bool b => some (if b then "true".toList else "false".toList)
  | .int i => some (if i < 0 then '-' :: Nat.toDigits 10 i.natAbs else Nat.toDigits 10 i.natAbs)
  | _ => none

/-- `json.dumps` on scalars and on flat lists and tuples of them; other values are refused. -/
def plainDumps (v : PyVal) : Except Str PyVal :=
  match plainScalar v, v.items.bind fun xs => collectSome (xs.map plainScalar) with
  | some s, _ => .ok (.str (pyStr s))
  | none, some ss => .ok (.str (pyStr (['['] ++ ", ".toList.intercalate ss ++ [']'])))
  | none, none => .error "TypeError: object is not JSON serializable".toList

/-- The extractions on the values as they are. -/
def plainPyO3 : PyO3 where
  extractResponse v := match v with
    | .response r => some r
    | _ => none
  extractString v := match v with
    | .str s => match plainString s with
      | some t => .ok t
      | none => .error "UnicodeEncodeError: surrogates not allowed".toList
    | _ => .error "TypeError: object cannot be converted to str".toList
  extractVecU8 := plainVecU8
  dumps := plainDumps

theorem plainPyO3_documented : plainPyO3.Documented where
  extractResponse_eq v r := by
    cases v <;> simp [plainPyO3]
  extractString_eq v s := by
    cases v with
    | str t =>
        show (match plainString t with
          | some t => Except.ok t
          | none => .error "UnicodeEncodeError: surrogates not allowed".toList) = Except.ok s ↔ _
        rw [PyVal.str.injEq, ← plainString_eq_some]
        cases plainString t <;> simp
    | _ => simp [plainPyO3]
  extractVecU8_eq v b := by
    have hitems : (v.items.bind fun xs => collectSome (xs.map PyVal.asU8)) = some b ↔
        ∃ xs, v.items = some xs ∧ xs.map PyVal.asU8 = b.map some := by
      simp only [Option.bind_eq_some_iff, collectSome_eq_some]
    show plainVecU8 v = some b ↔ _
    cases v with
    | bytes c => simp [plainVecU8, PyVal.items]
    | bytearray c => simp [plainVecU8, PyVal.items]
    | _ =>
        simp only [reduceCtorEq, false_or]
        exact hitems
  dumps_str v w h := by
    change plainDumps v = .ok w at h
    unfold plainDumps at h
    split at h
    · exact ⟨_, (Except.ok.inj h).symm⟩
    · exact ⟨_, (Except.ok.inj h).symm⟩
    · cases h

end RustApi
