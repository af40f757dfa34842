import Mathlib.Data.Finset.Card
import Mathlib.Data.Finset.Insert
import Mathlib.Tactic.Common
import RustApi.Lib.Text

/-!
# The `http` crate

`http` is not part of the repository either.  The functions the engine calls are the fields of
`HttpCrate`, and what is documented of them is the structure `HttpCrate.Documented` of propositions:
which strings make a header value, which numbers make a status code, what `insert` does to the
values of each name, and when a response builder's deferred error surfaces.

A `HeaderMap` has a largest size; `insert` past it panics and the builder past it fails.  Up to
`maxNames` different names, an inserted one included, neither happens; nothing is said about what happens
beyond.

`plainHttp` of `RustApi.Engine.PlainHttp` is a reference implementation over lists.
-/

namespace RustApi

open RustStd

/-- `http::Method`; two methods are equal when their texts are. -/
structure Method where
  asStr : Str
  deriving DecidableEq, Repr

/-- `http::StatusCode`. -/
structure StatusCode where
  code : UInt16
  inRange : 100 ≤ code.toNat ∧ code.toNat ≤ 999
  deriving DecidableEq

namespace StatusCode

def ok : StatusCode := ⟨200, by decide⟩

def notFound : StatusCode := ⟨404, by decide⟩

def methodNotAllowed : StatusCode := ⟨405, by decide⟩

def internalServerError : StatusCode := ⟨500, by decide⟩

end StatusCode

/-- `http::Response<Full<Bytes>>`. -/
structure HttpResponse (HeaderMap : Type) where
  status : StatusCode
  headers : HeaderMap
  body : Bytes

/-- A call `builder.header(name, value)`: with the crate's own types, or with text that the call
itself has to convert. -/
inductive HeaderCall (HeaderName HeaderValue : Type)
  | typed (name : HeaderName) (value : HeaderValue)
  | text (name value : Str)

/-- The entry a `header` call adds, `none` where a conversion of its text fails. -/
def HeaderCall.entry {N V : Type} (nameOf : Bytes → Option N) (valueOf : Str → Option V) :
    HeaderCall N V → Option (N × V)
  | .typed name value => some (name, value)
  | .text name value =>
      match nameOf (utf8 name), valueOf value with
      | some n, some v => some (n, v)
      | _, _ => none

/-- The types and functions of the `http` crate that are used.  `mapInsert` is `none` where
`HeaderMap::insert` panics.  `finish status calls body` is the chain
`Response::builder().status(status).header(..)….body(body)`, `none` where `body` returns an error. -/
structure HttpCrate where
  HeaderName : Type
  nameDecEq : DecidableEq HeaderName
  HeaderValue : Type
  HeaderMap : Type
  methodFromBytes : Bytes → Except Str Method
  statusFromU16 : UInt16 → Option StatusCode
  nameFromBytes : Bytes → Option HeaderName
  nameAsStr : HeaderName → Str
  contentType : HeaderName
  valueFromStr : Str → Option HeaderValue
  valueToStr : HeaderValue → Option Str
  valueAsBytes : HeaderValue → Bytes
  maxNames : ℕ
  mapNew : HeaderMap
  mapInsert : HeaderMap → HeaderName → HeaderValue → Option HeaderMap
  mapIter : HeaderMap → List (HeaderName × HeaderValue)
  finish : StatusCode → List (HeaderCall HeaderName HeaderValue) → Bytes →
    Option (HttpResponse HeaderMap)

namespace HttpCrate

variable (X : HttpCrate)

instance : DecidableEq X.HeaderName := X.nameDecEq

/-- The values listed under a name, in order. -/
def valuesIn (entries : List (X.HeaderName × X.HeaderValue)) (name : X.HeaderName) :
    List X.HeaderValue :=
  (entries.filter fun e => e.1 = name).map Prod.snd

/-- The values a map holds under a name, in the order `iter` yields them. -/
def valuesOf (m : X.HeaderMap) (name : X.HeaderName) : List X.HeaderValue :=
  X.valuesIn (X.mapIter m) name

/-- The names of a list of entries. -/
def namesIn (entries : List (X.HeaderName × X.HeaderValue)) : Finset X.HeaderName :=
  (entries.map Prod.fst).toFinset

/-- What a `header` call adds, `none` where its name or value is malformed. -/
def convert : HeaderCall X.HeaderName X.HeaderValue → Option (X.HeaderName × X.HeaderValue) :=
  HeaderCall.entry X.nameFromBytes X.valueFromStr

end HttpCrate

/-- The bytes a header value may not contain: the control bytes other than tab. -/
def forbiddenByte (b : UInt8) : Bool := (b.toNat < 32 && b.toNat ≠ 9) || b.toNat = 127

/-- A string `HeaderValue::from_str` accepts. -/
def ValidHeaderValue (s : Str) : Prop := ∀ b ∈ utf8 s, forbiddenByte b = false

instance (s : Str) : Decidable (ValidHeaderValue s) :=
  decidable_of_iff ((utf8 s).all (fun b => !forbiddenByte b) = true) <| by
    simp [ValidHeaderValue]

/-- What the `http` crate documents about the functions of `HttpCrate`. -/
structure HttpCrate.Documented (X : HttpCrate) : Prop where
  statusFromU16_eq : ∀ n, X.statusFromU16 n =
    if h : 100 ≤ n.toNat ∧ n.toNat ≤ 999 then some ⟨n, h⟩ else none
  server_isSome : (X.nameFromBytes (utf8 "server".toList)).isSome
  contentType_eq : X.nameFromBytes (utf8 "content-type".toList) = some X.contentType
  valueFromStr_isSome : ∀ s, (X.valueFromStr s).isSome ↔ ValidHeaderValue s
  valueFromStr_bytes : ∀ s v, X.valueFromStr s = some v → X.valueAsBytes v = utf8 s
  two_le_maxNames : 2 ≤ X.maxNames
  iter_new : X.mapIter X.mapNew = []
  insert_isSome : ∀ m n v, (insert n (X.namesIn (X.mapIter m))).card ≤ X.maxNames →
    (X.mapInsert m n v).isSome
  insert_valuesOf : ∀ m n v m', X.mapInsert m n v = some m' → ∀ n', X.valuesOf m' n' =
    if n' = n then [v] else X.valuesOf m n'
  finish_converts : ∀ s calls body r, X.finish s calls body = some r →
    ∃ entries : List (X.HeaderName × X.HeaderValue), calls.map X.convert = entries.map some
  finish_isSome : ∀ s calls body entries, calls.map X.convert = entries.map some →
    (X.namesIn entries).card ≤ X.maxNames → (X.finish s calls body).isSome
  finish_eq : ∀ s calls body r entries, X.finish s calls body = some r →
    calls.map X.convert = entries.map some →
    r.status = s ∧ r.body = body ∧ ∀ n, X.valuesOf r.headers n = X.valuesIn entries n

/-- The lower-case letter of an upper-case one. -/
def toLowerByte (b : UInt8) : UInt8 := if 65 ≤ b.toNat && b.toNat ≤ 90 then b + 32 else b

/-- What the `http` crate documents about header names: whatever case one is written in, it is the
name with its text in lower case. -/
structure HttpCrate.NamesDocumented (X : HttpCrate) : Prop where
  nameAsStr_injective : Function.Injective X.nameAsStr
  nameFromBytes_lower : ∀ bs, X.nameFromBytes (bs.map toLowerByte) = X.nameFromBytes bs
  nameFromBytes_asStr : ∀ bs n, X.nameFromBytes bs = some n →
    utf8 (X.nameAsStr n) = bs.map toLowerByte

/-- What the `http` crate documents about `HeaderValue::to_str`: it reads values of visible ASCII characters,
spaces and tabs, as they are. -/
structure HttpCrate.ValuesDocumented (X : HttpCrate) : Prop where
  toStr_bytes : ∀ v s, X.valueToStr v = some s → utf8 s = X.valueAsBytes v
  toStr_valid : ∀ v s, X.valueToStr v = some s → ValidHeaderValue s

/-- The methods that the `http` crate has constants for, as far as they are used. -/
def standardMethods : List Str :=
  ["GET".toList, "POST".toList, "PUT".toList, "DELETE".toList, "PATCH".toList, "HEAD".toList,
    "OPTIONS".toList]

/-- What the `http` crate documents about `Method::from_bytes`: it knows the standard methods. -/
structure HttpCrate.MethodsDocumented (X : HttpCrate) : Prop where
  methodFromBytes_standard : ∀ s ∈ standardMethods, X.methodFromBytes (utf8 s) = .ok ⟨s⟩

namespace HttpCrate

variable {X : HttpCrate}

/-- **Header names are compared without regard to case.** -/
theorem NamesDocumented.nameFromBytes_eq_iff (hN : X.NamesDocumented) {bs : Bytes}
    {n : X.HeaderName} (h : X.nameFromBytes bs = some n) (bs' : Bytes) :
    X.nameFromBytes bs' = some n ↔ bs'.map toLowerByte = bs.map toLowerByte := by
  constructor
  · intro h'
    rw [← hN.nameFromBytes_asStr bs n h, ← hN.nameFromBytes_asStr bs' n h']
  · intro heq
    rw [← hN.nameFromBytes_lower, heq, hN.nameFromBytes_lower, h]

/-- A header of two texts converts when both do. -/
theorem convert_text_eq_some_iff {name value : Str} {n : X.HeaderName} {v : X.HeaderValue} :
    X.convert (.text name value) = some (n, v) ↔
      X.nameFromBytes (utf8 name) = some n ∧ X.valueFromStr value = some v := by
  rw [convert, HeaderCall.entry]
  cases X.nameFromBytes (utf8 name) with
  | none => simp
  | some m =>
      cases X.valueFromStr value with
      | none => simp
      | some w => simp

theorem valuesIn_append (entries entries' : List (X.HeaderName × X.HeaderValue))
    (n : X.HeaderName) :
    X.valuesIn (entries ++ entries') n = X.valuesIn entries n ++ X.valuesIn entries' n := by
  simp only [valuesIn, List.filter_append, List.map_append]

theorem valuesIn_singleton (n n' : X.HeaderName) (v : X.HeaderValue) :
    X.valuesIn [(n, v)] n' = if n = n' then [v] else [] := by
  rw [valuesIn]
  by_cases h : n = n'
  · rw [List.filter_cons_of_pos (by simpa using h), if_pos h]
    rfl
  · rw [List.filter_cons_of_neg (by simpa using h), if_neg h]
    rfl

theorem mem_valuesIn {entries : List (X.HeaderName × X.HeaderValue)} {n : X.HeaderName}
    {v : X.HeaderValue} : v ∈ X.valuesIn entries n ↔ (n, v) ∈ entries := by
  simp [valuesIn]

theorem mem_namesIn {entries : List (X.HeaderName × X.HeaderValue)} {n : X.HeaderName} :
    n ∈ X.namesIn entries ↔ X.valuesIn entries n ≠ [] := by
  simp only [namesIn, valuesIn, List.mem_toFinset, List.mem_map, ne_eq, List.map_eq_nil_iff,
    List.filter_eq_nil_iff, decide_eq_true_eq, not_forall, not_not, exists_prop]

@[simp] theorem namesIn_cons (e : X.HeaderName × X.HeaderValue)
    (entries : List (X.HeaderName × X.HeaderValue)) :
    X.namesIn (e :: entries) = insert e.1 (X.namesIn entries) := by
  rw [namesIn, List.map_cons, List.toFinset_cons, namesIn]

/-- A list of `insert` calls, `none` where one of them panics. -/
def insertAll (X : HttpCrate) (m : X.HeaderMap) :
    List (X.HeaderName × X.HeaderValue) → Option X.HeaderMap
  | [] => some m
  | e :: entries => (X.mapInsert m e.1 e.2).bind fun m => X.insertAll m entries

/-- What insertions leave under a name: the last value inserted, if any, or else the old values. -/
def overwritten (X : HttpCrate) (entries : List (X.HeaderName × X.HeaderValue)) (n : X.HeaderName)
    (old : List X.HeaderValue) : List X.HeaderValue :=
  ((X.valuesIn entries n).getLast?.map fun v => [v]).getD old

theorem overwritten_cons (e : X.HeaderName × X.HeaderValue)
    (entries : List (X.HeaderName × X.HeaderValue)) (n : X.HeaderName) (old : List X.HeaderValue) :
    X.overwritten (e :: entries) n old =
      X.overwritten entries n (if n = e.1 then [e.2] else old) := by
  unfold overwritten valuesIn
  by_cases h : e.1 = n
  · rw [List.filter_cons_of_pos (by simpa using h), List.map_cons, List.getLast?_cons, if_pos h.symm]
    cases ((entries.filter fun e => e.1 = n).map Prod.snd).getLast? <;> rfl
  · rw [List.filter_cons_of_neg (by simpa using h), if_neg (Ne.symm h)]

namespace Documented

variable (hX : X.Documented)

include hX

theorem exists_valueFromStr {s : Str} (h : ValidHeaderValue s) : ∃ v, X.valueFromStr s = some v :=
  Option.isSome_iff_exists.mp ((hX.valueFromStr_isSome s).mpr h)

theorem valueFromStr_eq_none {s : Str} (h : ¬ ValidHeaderValue s) : X.valueFromStr s = none := by
  rw [← Option.not_isSome_iff_eq_none, hX.valueFromStr_isSome]
  exact h

@[simp] theorem valuesOf_new (n : X.HeaderName) : X.valuesOf X.mapNew n = [] := by
  simp [valuesOf, hX.iter_new, valuesIn]

@[simp] theorem namesIn_new : X.namesIn (X.mapIter X.mapNew) = ∅ := by
  simp [hX.iter_new, namesIn]

/-- `insert` adds its name to the names of the map. -/
theorem namesIn_insert {m m' : X.HeaderMap} {n : X.HeaderName} {v : X.HeaderValue}
    (h : X.mapInsert m n v = some m') :
    X.namesIn (X.mapIter m') = insert n (X.namesIn (X.mapIter m)) := by
  ext n'
  have hval := hX.insert_valuesOf m n v m' h n'
  rw [Finset.mem_insert, mem_namesIn, mem_namesIn]
  show X.valuesOf m' n' ≠ [] ↔ n' = n ∨ X.valuesOf m n' ≠ []
  rw [hval]
  split
  · next hn => simp [hn]
  · next hn => simp [hn]

/-- The last value inserted under a name is the one that stays. -/
theorem insertAll_valuesOf {m m' : X.HeaderMap} {entries : List (X.HeaderName × X.HeaderValue)}
    (h : X.insertAll m entries = some m') (n : X.HeaderName) :
    X.valuesOf m' n = X.overwritten entries n (X.valuesOf m n) := by
  induction entries generalizing m with
  | nil =>
      rw [← Option.some.inj h]
      rfl
  | cons e entries ih =>
      obtain ⟨m1, hm1, hrest⟩ := Option.bind_eq_some_iff.mp h
      rw [ih hrest, hX.insert_valuesOf _ _ _ _ hm1, overwritten_cons]

/-- The names of a map after insertions: the old ones and the inserted ones. -/
theorem namesIn_insertAll {m m' : X.HeaderMap} {entries : List (X.HeaderName × X.HeaderValue)}
    (h : X.insertAll m entries = some m') :
    X.namesIn (X.mapIter m') = X.namesIn (X.mapIter m) ∪ X.namesIn entries := by
  induction entries generalizing m with
  | nil =>
      rw [← Option.some.inj h]
      exact (Finset.union_empty _).symm
  | cons e entries ih =>
      obtain ⟨m1, hm1, hrest⟩ := Option.bind_eq_some_iff.mp h
      rw [ih hrest, hX.namesIn_insert hm1, namesIn_cons, Finset.insert_union, Finset.union_insert]

/-- Headers with few enough names can be inserted. -/
theorem insertAll_isSome {m : X.HeaderMap} {entries : List (X.HeaderName × X.HeaderValue)}
    (h : (X.namesIn (X.mapIter m) ∪ X.namesIn entries).card ≤ X.maxNames) :
    (X.insertAll m entries).isSome := by
  induction entries generalizing m with
  | nil => rfl
  | cons e entries ih =>
      have hnames : X.namesIn (X.mapIter m) ∪ X.namesIn (e :: entries) =
          insert e.1 (X.namesIn (X.mapIter m)) ∪ X.namesIn entries := by
        rw [namesIn_cons, Finset.union_insert, Finset.insert_union]
      rw [hnames] at h
      have hsub : insert e.1 (X.namesIn (X.mapIter m)) ⊆
          insert e.1 (X.namesIn (X.mapIter m)) ∪ X.namesIn entries := Finset.subset_union_left
      obtain ⟨m1, hm1⟩ := Option.isSome_iff_exists.mp
        (hX.insert_isSome m e.1 e.2 ((Finset.card_le_card hsub).trans h))
      rw [insertAll, hm1, Option.bind_some]
      exact ih (by rw [hX.namesIn_insert hm1]; exact h)

end Documented

end HttpCrate

end RustApi
