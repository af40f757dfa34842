import Mathlib.Data.Char
import Mathlib.Data.List.Lex
import Mathlib.Data.List.Sort
import RustApi.Engine.Http
import RustApi.Lib.Panic

/-!
# Responses

A response is a status, a header map and a body.  Every constructor goes through `Response.new`,
which unwraps the conversion of the content type, and `withHeader` drops a header that does not
convert.  Both insert into a `HeaderMap`, which panics when it is full.

`Response.new_spec` and `Response.withHeaders_eq` say when they return and what they leave behind.
-/

namespace RustApi

open RustStd

/-- `serde_json::json!({…}).to_string()` of an object, from its entries; a parameter. -/
abbrev SerdeJson := List (Str × Str) → Str

/-- The object with its keys sorted, for texts in which nothing needs an escape. -/
def plainJson : SerdeJson := fun entries =>
  let quote (s : Str) : Str := ['"'] ++ s ++ ['"']
  let member (e : Str × Str) : Str := quote e.1 ++ [':'] ++ quote e.2
  ['\x7b'] ++ [','].intercalate ((entries.insertionSort fun a b => a.1 ≤ b.1).map member) ++ ['\x7d']

/-- `HeaderMap::insert`: past the largest number of names it panics. -/
def HttpCrate.insertHeader (X : HttpCrate) (m : X.HeaderMap) (name : X.HeaderName)
    (value : X.HeaderValue) : Run X.HeaderMap :=
  match X.mapInsert m name value with
  | some m' => .ok m'
  | none => .error .capacityOverflow

structure Response (X : HttpCrate) where
  status : StatusCode
  headers : X.HeaderMap
  body : Bytes

namespace Response

variable {X : HttpCrate}

def new (status : StatusCode) (body : Bytes) (contentType : Str) : Run (Response X) := do
  let value ← unwrap (X.valueFromStr contentType)
  let headers ← X.insertHeader X.mapNew X.contentType value
  pure ⟨status, headers, body⟩

def ok (body : Bytes) (contentType : Str) : Run (Response X) := new .ok body contentType

/-- 200 OK with `application/json` content type. -/
def json (body : Bytes) : Run (Response X) := ok body "application/json; charset=utf-8".toList

/-- 200 OK with `text/plain; charset=utf-8`. -/
def text (body : Bytes) : Run (Response X) := ok body "text/plain; charset=utf-8".toList

def notFound : Run (Response X) :=
  new .notFound (utf8 "\x7b\"error\":\"not found\"\x7d".toList)
    "application/json; charset=utf-8".toList

def methodNotAllowed : Run (Response X) :=
  new .methodNotAllowed (utf8 "\x7b\"error\":\"method not allowed\"\x7d".toList)
    "application/json; charset=utf-8".toList

def internalError (serdeJson : SerdeJson) (msg : Str) : Run (Response X) :=
  let body := utf8 (serdeJson
    [("error".toList, "internal server error".toList), ("detail".toList, msg)])
  new .internalServerError body "application/json; charset=utf-8".toList

/-- Append a header. Silently drops malformed values. -/
def withHeader (r : Response X) (name value : Str) : Run (Response X) :=
  match X.nameFromBytes (utf8 name), X.valueFromStr value with
  | some name, some value => do
      let headers ← X.insertHeader r.headers name value
      pure { r with headers := headers }
  | _, _ => .ok r

/-- A chain of `with_header` calls. -/
def withHeaders (r : Response X) : List (Str × Str) → Run (Response X)
  | [] => .ok r
  | (k, v) :: headers => do
      let r ← r.withHeader k v
      r.withHeaders headers

/-! ### What the constructors return -/

/-- The names a response has headers under. -/
def names (r : Response X) : Finset X.HeaderName := X.namesIn (X.mapIter r.headers)

/-- The response has this status and body, and this content type as its only header. -/
structure Carries (r : Response X) (status : StatusCode) (contentType : Str) (body : Bytes) :
    Prop where
  status_eq : r.status = status
  body_eq : r.body = body
  headers_eq : ∃ v, X.valueFromStr contentType = some v ∧
    ∀ n, X.valuesOf r.headers n = if n = X.contentType then [v] else []

theorem Carries.names_eq {r : Response X} {status : StatusCode} {contentType : Str} {body : Bytes}
    (h : r.Carries status contentType body) : r.names = {X.contentType} := by
  obtain ⟨v, -, hvals⟩ := h.headers_eq
  ext n
  have hn := hvals n
  rw [names, HttpCrate.mem_namesIn, Finset.mem_singleton]
  show X.valuesOf r.headers n ≠ [] ↔ n = X.contentType
  rw [hn]
  split
  · next heq => simp [heq]
  · next hne => simp [hne]

section Documented

variable (hX : X.Documented)

include hX

/-- A response carries one content type. -/
theorem Carries.utf8_contentType {r : Response X} {status status' : StatusCode}
    {contentType contentType' : Str} {body body' : Bytes}
    (h : r.Carries status contentType body) (h' : r.Carries status' contentType' body') :
    utf8 contentType = utf8 contentType' := by
  obtain ⟨v, hv, hvals⟩ := h.headers_eq
  obtain ⟨v', hv', hvals'⟩ := h'.headers_eq
  have hsame := (hvals X.contentType).symm.trans (hvals' X.contentType)
  rw [if_pos rfl, if_pos rfl, List.cons.injEq] at hsame
  rw [← hX.valueFromStr_bytes _ _ hv, ← hX.valueFromStr_bytes _ _ hv', hsame.1]

/-- **`new` returns exactly for a content type without forbidden bytes.** -/
theorem new_spec (status : StatusCode) (body : Bytes) (contentType : Str) :
    (ValidHeaderValue contentType →
      ∃ r : Response X, new status body contentType = .ok r ∧ r.Carries status contentType body) ∧
    (¬ ValidHeaderValue contentType →
      (new status body contentType : Run (Response X)) = .error .unwrapFailed) := by
  constructor
  · intro h
    obtain ⟨v, hv⟩ := hX.exists_valueFromStr h
    have hroom : (insert X.contentType (X.namesIn (X.mapIter X.mapNew))).card ≤ X.maxNames := by
      rw [hX.namesIn_new, Finset.card_insert_of_notMem (Finset.notMem_empty _), Finset.card_empty]
      have := hX.two_le_maxNames
      omega
    obtain ⟨m, hm⟩ := Option.isSome_iff_exists.mp (hX.insert_isSome X.mapNew X.contentType v hroom)
    refine ⟨⟨status, m, body⟩, ?_, rfl, rfl, v, hv, ?_⟩
    · simp only [new, hv, unwrap, HttpCrate.insertHeader, hm, Run.ok_bind, Run.pure_eq_ok]
    · intro n
      rw [hX.insert_valuesOf _ _ _ _ hm, hX.valuesOf_new]
  · intro h
    simp only [new, hX.valueFromStr_eq_none h, unwrap, Run.error_bind]

end Documented

/-! ### Chains of headers -/

/-- The headers of a list that convert. -/
def validEntries (X : HttpCrate) (headers : List (Str × Str)) :
    List (X.HeaderName × X.HeaderValue) :=
  headers.filterMap fun kv => X.convert (.text kv.1 kv.2)

theorem validEntries_cons {name value : Str} {n : X.HeaderName} {v : X.HeaderValue}
    (hn : X.nameFromBytes (utf8 name) = some n) (hv : X.valueFromStr value = some v)
    (headers : List (Str × Str)) :
    validEntries X ((name, value) :: headers) = (n, v) :: validEntries X headers :=
  List.filterMap_cons_some (HttpCrate.convert_text_eq_some_iff.mpr ⟨hn, hv⟩)

theorem mem_validEntries {headers : List (Str × Str)} {n : X.HeaderName} {v : X.HeaderValue} :
    (n, v) ∈ validEntries X headers ↔
      ∃ kv ∈ headers, X.nameFromBytes (utf8 kv.1) = some n ∧ X.valueFromStr kv.2 = some v := by
  rw [validEntries, List.mem_filterMap]
  simp only [HttpCrate.convert_text_eq_some_iff]

theorem card_validEntries_le (X : HttpCrate) (headers : List (Str × Str)) :
    (X.namesIn (validEntries X headers)).card ≤ headers.length := by
  have hset : (X.namesIn (validEntries X headers)).card ≤
      ((validEntries X headers).map Prod.fst).length := List.toFinset_card_le _
  have hfilter : (validEntries X headers).length ≤ headers.length := List.length_filterMap_le _ _
  rw [List.length_map] at hset
  omega

theorem withHeader_of_none {r : Response X} {name value : Str}
    (h : X.convert (.text name value) = none) : r.withHeader name value = .ok r := by
  unfold withHeader
  split
  · next n v hn hv =>
    rw [HttpCrate.convert, HeaderCall.entry, hn, hv] at h
    cases h
  · rfl

theorem withHeader_of_some {r : Response X} {name value : Str} {n : X.HeaderName}
    {v : X.HeaderValue} (h : X.convert (.text name value) = some (n, v)) :
    r.withHeader name value = (do
      let headers ← X.insertHeader r.headers n v
      pure { r with headers := headers }) := by
  unfold withHeader
  split
  · next n' v' hn hv =>
    rw [HttpCrate.convert, HeaderCall.entry, hn, hv] at h
    obtain ⟨rfl, rfl⟩ := Prod.mk.inj (Option.some.inj h)
    rfl
  · next hno =>
    rw [HttpCrate.convert, HeaderCall.entry] at h
    split at h
    · next n' v' hn hv => exact absurd hv (hno n' v' hn)
    · cases h

/-- **A chain of headers inserts those that convert, in order, and nothing else.** -/
theorem withHeaders_eq (headers : List (Str × Str)) (r : Response X) :
    r.withHeaders headers =
      match X.insertAll r.headers (validEntries X headers) with
      | some m => .ok { r with headers := m }
      | none => .error .capacityOverflow := by
  induction headers generalizing r with
  | nil => rfl
  | cons kv headers ih =>
      rw [withHeaders]
      cases hconv : X.convert (.text kv.1 kv.2) with
      | none =>
          have hvalid : validEntries X (kv :: headers) = validEntries X headers :=
            List.filterMap_cons_none hconv
          rw [withHeader_of_none hconv, Run.ok_bind, ih, hvalid]
      | some e =>
          have hvalid : validEntries X (kv :: headers) = e :: validEntries X headers :=
            List.filterMap_cons_some hconv
          rw [withHeader_of_some hconv, hvalid, HttpCrate.insertAll, HttpCrate.insertHeader]
          cases X.mapInsert r.headers e.1 e.2 with
          | none => rfl
          | some m => exact ih { r with headers := m }

/-- Headers with few enough names can be added. -/
theorem exists_withHeaders (hX : X.Documented) (r : Response X) (headers : List (Str × Str))
    (h : (r.names ∪ X.namesIn (validEntries X headers)).card ≤ X.maxNames) :
    ∃ r', r.withHeaders headers = .ok r' := by
  obtain ⟨m, hm⟩ := Option.isSome_iff_exists.mp (hX.insertAll_isSome h)
  exact ⟨{ r with headers := m }, by rw [withHeaders_eq, hm]⟩

end Response

end RustApi
