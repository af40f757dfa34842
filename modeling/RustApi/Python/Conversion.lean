import RustApi.Engine.PlainHttp
import RustApi.Engine.Response
import RustApi.Python.Values

/-!
# From a Python return value to a response

`pyobjToResponse` tries one extraction after the other: a `Response` instance, a `str`, bytes, and
`json.dumps` for the rest.  Two things can go wrong in this cascade, and each has an exact boundary.

* The third extraction accepts more than bytes: any sequence of small integers.
  `convertedByType_iff` says for which values every type gets the response meant for it.
* The content type of a `Response` instance reaches an `unwrap`.  `response_converts_iff` says for which
  instances it does not panic, as long as their headers are few enough for a header map (`HeadersFit`).
-/

namespace RustApi

open RustStd

variable {X : HttpCrate}

/-! ### The conversion -/

namespace PyResponse

/-- `Response(body, status_code=200, content_type="application/json", headers=None)`. -/
def new (body : Bytes) (statusCode : Option UInt16) (contentType : Option Str)
    (headers : Option (IteratedMap Str Str)) : PyResponse where
  statusCode := statusCode.getD 200
  headers := headers.getD IteratedMap.empty
  body := body
  contentType := contentType.getD "application/json".toList

/-- `Response.json(data, status_code=200, headers=None)`. -/
def json (P : PyO3) (data : PyVal) (statusCode : Option UInt16)
    (headers : Option (IteratedMap Str Str)) : Except Str PyResponse := do
  let dumped ← P.dumps data
  let jsonStr ← P.extractString dumped
  pure
    { statusCode := statusCode.getD 200
      headers := headers.getD IteratedMap.empty
      body := utf8 jsonStr
      contentType := "application/json; charset=utf-8".toList }

/-- `Response.text(text, status_code=200, headers=None)`. -/
def text (text : Str) (statusCode : Option UInt16)
    (headers : Option (IteratedMap Str Str)) : PyResponse where
  statusCode := statusCode.getD 200
  headers := headers.getD IteratedMap.empty
  body := utf8 text
  contentType := "text/plain; charset=utf-8".toList

/-- The first arm of the conversion. -/
def toResponse (r : PyResponse) : Run (Response X) := do
  let status := (X.statusFromU16 r.statusCode).getD .internalServerError
  let resp ← Response.new status r.body r.contentType
  resp.withHeaders r.headers.entries

end PyResponse

/-- Convert a Python return value into a response of the engine, or the text of an exception. -/
def pyobjToResponse (P : PyO3) (obj : PyVal) : Run (Except Str (Response X)) :=
  -- 1. Response instance?
  match P.extractResponse obj with
  | some r => do
      let resp ← r.toResponse
      pure (.ok resp)
  | none =>
  -- 2. str?
  match P.extractString obj with
  | .ok s => do
      let resp ← Response.text (utf8 s)
      pure (.ok resp)
  | .error _ =>
  -- 3. bytes?
  match P.extractVecU8 obj with
  | some b => do
      let resp ← Response.ok b "application/octet-stream".toList
      pure (.ok resp)
  | none =>
  -- 4. Default: JSON-serialize.
  match (do
    let dumped ← P.dumps obj
    P.extractString dumped) with
  | .ok jsonStr => do
      let resp ← Response.json (utf8 jsonStr)
      pure (.ok resp)
  | .error e => .ok (.error e)

/-! ### `Response` instances -/

/-- What a `Response` instance asks for: its status or else 500, its body, its content type, and of
its headers those that convert. -/
structure Response.ConvertedFrom (resp : Response X) (r : PyResponse) : Prop where
  status_eq : resp.status = if h : 100 ≤ r.statusCode.toNat ∧ r.statusCode.toNat ≤ 999
    then ⟨r.statusCode, h⟩ else .internalServerError
  body_eq : resp.body = r.body
  headers_eq : ∃ v, X.valueFromStr r.contentType = some v ∧ ∀ n, X.valuesOf resp.headers n =
    X.overwritten (Response.validEntries X r.headers.entries) n
      (if n = X.contentType then [v] else [])

namespace PyResponse

/-- The names of the valid headers, with that of the content type, are no more than a header map always
takes. -/
def HeadersFit (X : HttpCrate) (r : PyResponse) : Prop :=
  (insert X.contentType (X.namesIn (Response.validEntries X r.headers.entries))).card ≤ X.maxNames

/-- The first arm as one list of insertions. -/
theorem toResponse_eq (r : PyResponse) :
    (r.toResponse : Run (Response X)) =
      match X.valueFromStr r.contentType with
      | none => .error .unwrapFailed
      | some v =>
          match X.insertAll X.mapNew
            ((X.contentType, v) :: Response.validEntries X r.headers.entries) with
          | some m => .ok ⟨(X.statusFromU16 r.statusCode).getD .internalServerError, m, r.body⟩
          | none => .error .capacityOverflow := by
  rw [toResponse, Response.new]
  cases X.valueFromStr r.contentType with
  | none => rfl
  | some v =>
      simp only [unwrap, Run.ok_bind, HttpCrate.insertHeader, HttpCrate.insertAll]
      cases X.mapInsert X.mapNew X.contentType v with
      | none => rfl
      | some m => exact Response.withHeaders_eq _ _

/-- The first arm returns when its `unwrap` and its insertions do. -/
theorem toResponse_eq_ok_iff {r : PyResponse} {resp : Response X} :
    r.toResponse = .ok resp ↔ ∃ v m, X.valueFromStr r.contentType = some v ∧
      X.insertAll X.mapNew
        ((X.contentType, v) :: Response.validEntries X r.headers.entries) = some m ∧
      resp = ⟨(X.statusFromU16 r.statusCode).getD .internalServerError, m, r.body⟩ := by
  rw [toResponse_eq]
  cases X.valueFromStr r.contentType with
  | none => simp
  | some v =>
      cases hm : X.insertAll X.mapNew
          ((X.contentType, v) :: Response.validEntries X r.headers.entries) with
      | none => simp [hm]
      | some m => simp [hm, eq_comm]

theorem headersFit_of_length_lt {X : HttpCrate} {r : PyResponse}
    (h : r.headers.entries.length < X.maxNames) : r.HeadersFit X := by
  have hinsert := Finset.card_insert_le X.contentType
    (X.namesIn (Response.validEntries X r.headers.entries))
  have hvalid := Response.card_validEntries_le X r.headers.entries
  rw [HeadersFit]
  omega

section Documented

variable (hX : X.Documented)

include hX

/-- Few enough headers go into the map of the response, whatever the content type. -/
theorem HeadersFit.exists_insertAll {r : PyResponse} (h : r.HeadersFit X) (v : X.HeaderValue) :
    ∃ m, X.insertAll X.mapNew
      ((X.contentType, v) :: Response.validEntries X r.headers.entries) = some m := by
  apply Option.isSome_iff_exists.mp
  apply hX.insertAll_isSome
  rw [hX.namesIn_new, Finset.empty_union, HttpCrate.namesIn_cons]
  exact h

theorem exists_toResponse_iff {r : PyResponse} (hfit : r.HeadersFit X) :
    (∃ resp : Response X, r.toResponse = .ok resp) ↔ ValidHeaderValue r.contentType := by
  constructor
  · intro h
    obtain ⟨resp, hresp⟩ := h
    obtain ⟨v, m, hv, -, -⟩ := toResponse_eq_ok_iff.mp hresp
    exact (hX.valueFromStr_isSome _).mp (by rw [hv]; rfl)
  · intro h
    obtain ⟨v, hv⟩ := hX.exists_valueFromStr h
    obtain ⟨m, hm⟩ := hfit.exists_insertAll hX v
    exact ⟨_, toResponse_eq_ok_iff.mpr ⟨v, m, hv, hm, rfl⟩⟩

/-- What the first arm returns is what the instance asks for. -/
theorem convertedFrom_of_toResponse {r : PyResponse} {resp : Response X}
    (h : r.toResponse = .ok resp) : resp.ConvertedFrom r := by
  obtain ⟨v, m, hv, hm, rfl⟩ := toResponse_eq_ok_iff.mp h
  refine ⟨?_, rfl, v, hv, ?_⟩
  · show (X.statusFromU16 r.statusCode).getD .internalServerError = _
    rw [hX.statusFromU16_eq]
    split <;> rfl
  · intro n
    show X.valuesOf m n = _
    rw [hX.insertAll_valuesOf hm, HttpCrate.overwritten_cons, hX.valuesOf_new]

theorem toResponse_iff {r : PyResponse} (hfit : r.HeadersFit X) :
    (∃ resp : Response X, r.toResponse = .ok resp ∧ resp.ConvertedFrom r) ↔
      ValidHeaderValue r.contentType := by
  rw [← exists_toResponse_iff hX hfit]
  constructor
  · intro h
    obtain ⟨resp, hresp, -⟩ := h
    exact ⟨resp, hresp⟩
  · intro h
    obtain ⟨resp, hresp⟩ := h
    exact ⟨resp, hresp, convertedFrom_of_toResponse hX hresp⟩

end Documented

end PyResponse

theorem pyobjToResponse_response {P : PyO3} (hP : P.Documented) (r : PyResponse) :
    (pyobjToResponse P (.response r) : Run (Except Str (Response X))) = (do
      let resp ← r.toResponse
      pure (.ok resp)) := by
  unfold pyobjToResponse
  rw [(hP.extractResponse_eq _ r).mpr rfl]

/-- **A `Response` instance with few enough headers is converted exactly when its content type is a header
value.**  Then an out-of-range status has become 500 and the malformed headers are gone; otherwise the
conversion panics. -/
theorem response_converts_iff (hX : X.Documented) {P : PyO3} (hP : P.Documented) (r : PyResponse)
    (hfit : r.HeadersFit X) :
    (∃ resp : Response X, pyobjToResponse P (.response r) = .ok (.ok resp) ∧ resp.ConvertedFrom r) ↔
      ValidHeaderValue r.contentType := by
  simp only [pyobjToResponse_response hP, Run.bind_ok_eq_iff]
  exact PyResponse.toResponse_iff hX hfit

/-- An out-of-range status and a header name with a space. -/
def oddResponse : PyResponse :=
  PyResponse.new (utf8 "hi".toList) (some 42) (some "text/plain".toList)
    (some ⟨[("X-Id".toList, "7".toList), ("bad name".toList, "x".toList)], by decide⟩)

theorem response_converts_iff_odd :
    ∃ resp : Response plainHttp,
      pyobjToResponse plainPyO3 (.response oddResponse) = .ok (.ok resp) ∧
        resp.ConvertedFrom oddResponse :=
  (response_converts_iff plainHttp_documented plainPyO3_documented oddResponse
    (PyResponse.headersFit_of_length_lt (by decide))).mpr (by decide)

/-- A content type that ends in a newline. -/
def newlineResponse : PyResponse := PyResponse.new [] none (some "text/plain\n".toList) none

/-- The conversion of a response with a newline in its content type panics. -/
theorem response_panics_newline :
    plainHttp.Documented ∧ plainPyO3.Documented ∧
    ¬ ∃ out : Except Str (Response plainHttp),
      pyobjToResponse plainPyO3 (.response newlineResponse) = .ok out := by
  refine ⟨plainHttp_documented, plainPyO3_documented, ?_⟩
  intro h
  obtain ⟨out, hout⟩ := h
  have hct : ¬ ValidHeaderValue newlineResponse.contentType := by decide
  rw [pyobjToResponse_response plainPyO3_documented, PyResponse.toResponse_eq,
    plainHttp_documented.valueFromStr_eq_none hct] at hout
  cases hout

/-! ### Every other value -/

/-- Each type gets the response meant for it: a `Response` instance itself, a `str` text, bytes an
octet stream, and everything else JSON, or an error where `json.dumps` fails. -/
structure ConvertedByType (P : PyO3) (v : PyVal) (out : Run (Except Str (Response X))) : Prop where
  response : ∀ r, v = .response r → ∃ resp, out = .ok (.ok resp) ∧ resp.ConvertedFrom r
  str : ∀ s, v = .str (pyStr s) → ∃ resp, out = .ok (.ok resp) ∧
    resp.Carries .ok "text/plain; charset=utf-8".toList (utf8 s)
  bytes : ∀ b, v = .bytes b ∨ v = .bytearray b → ∃ resp, out = .ok (.ok resp) ∧
    resp.Carries .ok "application/octet-stream".toList b
  json : ¬ v.HasArm → ∀ s, P.dumps v = .ok (.str (pyStr s)) → ∃ resp, out = .ok (.ok resp) ∧
    resp.Carries .ok "application/json; charset=utf-8".toList (utf8 s)
  error : ¬ v.HasArm → ∀ e, P.dumps v = .error e → out = .ok (.error e)

section Arms

variable (hX : X.Documented) {P : PyO3} (hP : P.Documented)

include hX

/-- A constructor of the engine, called with a constant content type. -/
theorem exists_ok_response (body : Bytes) {contentType : Str} (hct : ValidHeaderValue contentType) :
    ∃ resp : Response X, (do
      let resp ← Response.ok body contentType
      pure (.ok resp) : Run (Except Str (Response X))) = .ok (.ok resp) ∧
      resp.Carries .ok contentType body := by
  obtain ⟨resp, hresp, hcarries⟩ := (Response.new_spec hX .ok body contentType).1 hct
  refine ⟨resp, ?_, hcarries⟩
  rw [Response.ok, hresp]
  rfl

include hP

theorem pyobjToResponse_str (s : Str) : ∃ resp : Response X,
    pyobjToResponse P (.str (pyStr s)) = .ok (.ok resp) ∧
      resp.Carries .ok "text/plain; charset=utf-8".toList (utf8 s) := by
  unfold pyobjToResponse
  rw [hP.extractResponse_none (by simp), hP.extractString_str]
  exact exists_ok_response hX (utf8 s) (by decide)

/-- Whatever the third extraction accepts becomes an octet stream. -/
theorem pyobjToResponse_octets {v : PyVal} {b : Bytes} (hresp : ∀ r, v ≠ .response r)
    (hstr : ∀ s, v ≠ .str (pyStr s)) (hb : P.extractVecU8 v = some b) : ∃ resp : Response X,
    pyobjToResponse P v = .ok (.ok resp) ∧
      resp.Carries .ok "application/octet-stream".toList b := by
  obtain ⟨e, he⟩ := hP.extractString_error hstr
  unfold pyobjToResponse
  rw [hP.extractResponse_none hresp, he, hb]
  exact exists_ok_response hX b (by decide)

theorem pyobjToResponse_bytes {v : PyVal} {b : Bytes} (hv : v = .bytes b ∨ v = .bytearray b) :
    ∃ resp : Response X, pyobjToResponse P v = .ok (.ok resp) ∧
      resp.Carries .ok "application/octet-stream".toList b := by
  have hb : P.extractVecU8 v = some b := by
    rw [hP.extractVecU8_eq]
    rcases hv with hv | hv
    · exact .inl hv
    · exact .inr (.inl hv)
  refine pyobjToResponse_octets hX hP ?_ ?_ hb
  · rcases hv with rfl | rfl <;> simp
  · rcases hv with rfl | rfl <;> simp

/-- What gets past the third extraction is serialized. -/
theorem pyobjToResponse_dumps {v : PyVal} (h : ¬ v.HasArm) (hitems : ¬ v.ByteItems) :
    (∀ s, P.dumps v = .ok (.str (pyStr s)) → ∃ resp : Response X,
      pyobjToResponse P v = .ok (.ok resp) ∧
        resp.Carries .ok "application/json; charset=utf-8".toList (utf8 s)) ∧
    (∀ e, P.dumps v = .error e →
      (pyobjToResponse P v : Run (Except Str (Response X))) = .ok (.error e)) := by
  have hresp : ∀ r, v ≠ .response r := fun r hr => h (hr ▸ .response r)
  have hstr : ∀ s, v ≠ .str (pyStr s) := fun s hs => h (hs ▸ .str s)
  obtain ⟨e, he⟩ := hP.extractString_error hstr
  have hvec : P.extractVecU8 v = none := by
    rw [← Option.not_isSome_iff_eq_none, hP.extractVecU8_isSome h]
    exact hitems
  unfold pyobjToResponse
  rw [hP.extractResponse_none hresp, he, hvec]
  constructor
  · intro s hs
    have hjson : (do
        let dumped ← P.dumps v
        P.extractString dumped) = .ok s := by
      rw [hs]
      exact hP.extractString_str s
    dsimp only
    rw [hjson]
    exact exists_ok_response hX (utf8 s) (by decide)
  · intro e hdumps
    dsimp only
    rw [hdumps]
    rfl

/-- A sequence of small integers is taken for bytes, so it gets the wrong response. -/
theorem not_convertedByType_of_byteItems {v : PyVal} (h : v.ByteItems) :
    ¬ ConvertedByType P v (pyobjToResponse P v : Run (Except Str (Response X))) := by
  have harm : ¬ v.HasArm := by
    intro harm
    obtain ⟨xs, hxs, -⟩ := h
    rw [harm.items_eq_none] at hxs
    cases hxs
  obtain ⟨b, hb⟩ := Option.isSome_iff_exists.mp ((hP.extractVecU8_isSome harm).mpr h)
  obtain ⟨resp, hout, hcarries⟩ := pyobjToResponse_octets (X := X) hX hP
    (fun r (hr : v = .response r) => harm (hr ▸ .response r))
    (fun s (hs : v = .str (pyStr s)) => harm (hs ▸ .str s)) hb
  intro hconv
  cases hdumps : P.dumps v with
  | error e =>
      have herr := hconv.error harm e hdumps
      rw [hout] at herr
      cases herr
  | ok w =>
      obtain ⟨s, rfl⟩ := hP.dumps_str v w hdumps
      obtain ⟨resp', hout', hcarries'⟩ := hconv.json harm s hdumps
      rw [hout, Except.ok.injEq, Except.ok.injEq] at hout'
      rw [← hout'] at hcarries'
      exact absurd (hcarries.utf8_contentType hX hcarries') (by decide)

end Arms

/-- **Every type gets its own response exactly when the content type of a `Response` instance is a header
value and no sequence of small integers comes along**, the headers of an instance being few enough. -/
theorem convertedByType_iff (hX : X.Documented) {P : PyO3} (hP : P.Documented) (v : PyVal)
    (hfit : ∀ r, v = .response r → r.HeadersFit X) :
    ConvertedByType P v (pyobjToResponse P v : Run (Except Str (Response X))) ↔
      (∀ r, v = .response r → ValidHeaderValue r.contentType) ∧ ¬ v.ByteItems := by
  constructor
  · intro h
    refine ⟨?_, fun hitems => not_convertedByType_of_byteItems hX hP hitems h⟩
    intro r hr
    have hconv := h.response r hr
    simp only [hr, pyobjToResponse_response hP, Run.bind_ok_eq_iff] at hconv
    exact (PyResponse.toResponse_iff hX (hfit r hr)).mp hconv
  · intro h
    obtain ⟨hresp, hitems⟩ := h
    refine ⟨?_, ?_, ?_, ?_, ?_⟩
    · intro r hr
      simp only [hr, pyobjToResponse_response hP, Run.bind_ok_eq_iff]
      exact (PyResponse.toResponse_iff hX (hfit r hr)).mpr (hresp r hr)
    · intro s hs
      rw [hs]
      exact pyobjToResponse_str hX hP s
    · intro b hb
      exact pyobjToResponse_bytes hX hP hb
    · intro harm
      exact (pyobjToResponse_dumps hX hP harm hitems).1
    · intro harm
      exact (pyobjToResponse_dumps hX hP harm hitems).2

/-- A list with an element that is no byte. -/
def mixedList : PyVal := .list [.int 1, .int 300]

theorem not_byteItems_mixedList : ¬ mixedList.ByteItems := by
  intro h
  obtain ⟨xs, hxs, hall⟩ := h
  rw [← Option.some.inj hxs] at hall
  exact absurd (hall (.int 300) (List.mem_cons_of_mem _ (List.mem_singleton_self _))) (by decide)

theorem convertedByType_iff_mixedList :
    ConvertedByType plainPyO3 mixedList
      (pyobjToResponse plainPyO3 mixedList : Run (Except Str (Response plainHttp))) :=
  (convertedByType_iff plainHttp_documented plainPyO3_documented mixedList
    fun r hr => (by cases hr)).mpr ⟨fun r hr => (by cases hr), not_byteItems_mixedList⟩

/-- A list that looks like bytes. -/
def oneTwoThree : PyVal := .list [.int 1, .int 2, .int 3]

/-- The list `[1, 2, 3]` is sent as three bytes instead of as JSON. -/
theorem not_convertedByType_oneTwoThree :
    plainHttp.Documented ∧ plainPyO3.Documented ∧
    ¬ ConvertedByType plainPyO3 oneTwoThree
      (pyobjToResponse plainPyO3 oneTwoThree : Run (Except Str (Response plainHttp))) := by
  refine ⟨plainHttp_documented, plainPyO3_documented, ?_⟩
  apply not_convertedByType_of_byteItems plainHttp_documented plainPyO3_documented
  refine ⟨[.int 1, .int 2, .int 3], rfl, ?_⟩
  intro x hx
  simp only [List.mem_cons, List.not_mem_nil, or_false] at hx
  rcases hx with rfl | rfl | rfl <;> decide

end RustApi
