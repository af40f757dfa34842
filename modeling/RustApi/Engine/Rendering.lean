import RustApi.Engine.Server

/-!
# When a response can be rendered

`render` hands every header of the response and the configured server string to a response builder
and expects the builder to succeed.  The headers of the response are typed already; the server string
is text, and a builder fails on text that is not a header value.

`render_of_valid` and `render_of_invalid` settle the two cases, and `exists_render_iff` puts them
together.  `Response.notFound` and its siblings always fit (`carries_withinLimit`).
-/

namespace RustApi

open RustStd

variable {X : HttpCrate}

/-- The header that the configuration adds, where it converts. -/
def serverEntries (X : HttpCrate) (config : ServerConfig) : List (X.HeaderName × X.HeaderValue) :=
  if config.serverName = [] then []
  else (X.convert (.text "server".toList config.serverName)).toList

/-- The name that the configuration adds. -/
def serverNames (X : HttpCrate) (config : ServerConfig) : Finset X.HeaderName :=
  if config.serverName = [] then ∅ else (X.nameFromBytes (utf8 "server".toList)).toFinset

/-- The names of the rendered response fit into a header map. -/
def WithinLimit (resp : Response X) (config : ServerConfig) : Prop :=
  (resp.names ∪ serverNames X config).card ≤ X.maxNames

theorem card_serverNames_le (X : HttpCrate) (config : ServerConfig) :
    (serverNames X config).card ≤ 1 := by
  unfold serverNames
  split
  · exact Nat.zero_le 1
  · cases X.nameFromBytes (utf8 "server".toList) with
    | none => exact Nat.zero_le 1
    | some n => exact Nat.le_refl 1

theorem validHeaderValue_nil : ValidHeaderValue [] := by
  intro b hb
  cases hb

section Documented

variable (hX : X.Documented)

include hX

/-- With a valid server string it is the `server` header. -/
theorem convert_server {config : ServerConfig} (h : ValidHeaderValue config.serverName) :
    ∃ n v, X.nameFromBytes (utf8 "server".toList) = some n ∧
      X.valueFromStr config.serverName = some v ∧
      X.convert (.text "server".toList config.serverName) = some (n, v) := by
  obtain ⟨n, hn⟩ := Option.isSome_iff_exists.mp hX.server_isSome
  obtain ⟨v, hv⟩ := hX.exists_valueFromStr h
  refine ⟨n, v, hn, hv, ?_⟩
  rw [HttpCrate.convert, HeaderCall.entry, hn, hv]

theorem convert_renderCalls (resp : Response X) {config : ServerConfig}
    (h : ValidHeaderValue config.serverName) :
    (renderCalls resp config).map X.convert =
      (X.mapIter resp.headers ++ serverEntries X config).map some := by
  have htyped : ((X.mapIter resp.headers).map fun e =>
      (.typed e.1 e.2 : HeaderCall X.HeaderName X.HeaderValue)).map X.convert =
        (X.mapIter resp.headers).map some := by
    rw [List.map_map]
    rfl
  obtain ⟨n, v, -, -, hconv⟩ := convert_server hX h
  rw [renderCalls, serverEntries, List.map_append, List.map_append, htyped]
  split
  · rfl
  · rw [List.map_singleton, hconv]
    rfl

theorem namesIn_render (resp : Response X) {config : ServerConfig}
    (h : ValidHeaderValue config.serverName) :
    X.namesIn (X.mapIter resp.headers ++ serverEntries X config) =
      resp.names ∪ serverNames X config := by
  obtain ⟨n, v, hn, -, hconv⟩ := convert_server hX h
  have hserver : X.namesIn (serverEntries X config) = serverNames X config := by
    unfold serverEntries serverNames
    split
    · rfl
    · rw [hconv, hn]
      rfl
  rw [← hserver]
  simp only [Response.names, HttpCrate.namesIn, List.map_append, List.toFinset_append]

/-- **A valid server string: the response is rendered as it is, with one header more.** -/
theorem render_of_valid {resp : Response X} {config : ServerConfig}
    (h : ValidHeaderValue config.serverName) (hfit : WithinLimit resp config) :
    ∃ out, render resp config = .ok out ∧ out.status = resp.status ∧ out.body = resp.body ∧
      ∀ n, X.valuesOf out.headers n =
        X.valuesIn (X.mapIter resp.headers ++ serverEntries X config) n := by
  have hcalls := convert_renderCalls hX resp h
  have hcard : (X.namesIn (X.mapIter resp.headers ++ serverEntries X config)).card ≤
      X.maxNames := by
    rw [namesIn_render hX resp h]
    exact hfit
  obtain ⟨out, hout⟩ := Option.isSome_iff_exists.mp
    (hX.finish_isSome resp.status (renderCalls resp config) resp.body _ hcalls hcard)
  obtain ⟨hstatus, hbody, hvals⟩ := hX.finish_eq _ _ _ _ _ hout hcalls
  refine ⟨out, ?_, hstatus, hbody, hvals⟩
  rw [render, hout]
  rfl

/-- **An invalid server string: the `expect` fails, whatever the response.** -/
theorem render_of_invalid (resp : Response X) {config : ServerConfig}
    (h : ¬ ValidHeaderValue config.serverName) :
    render resp config = .error (.expectFailed "valid response".toList) := by
  have hne : config.serverName ≠ [] := by
    intro hnil
    rw [hnil] at h
    exact h validHeaderValue_nil
  have hnone : X.convert (.text "server".toList config.serverName) = none := by
    rw [HttpCrate.convert, HeaderCall.entry, hX.valueFromStr_eq_none h]
    cases X.nameFromBytes (utf8 "server".toList) <;> rfl
  have hfail : X.finish resp.status (renderCalls resp config) resp.body = none := by
    rw [Option.eq_none_iff_forall_ne_some]
    intro out hout
    obtain ⟨entries, hcalls⟩ := hX.finish_converts _ _ _ _ hout
    have hmem : (none : Option (X.HeaderName × X.HeaderValue)) ∈ entries.map some := by
      rw [← hcalls, ← hnone]
      refine List.mem_map_of_mem (List.mem_append_right _ ?_)
      rw [if_neg hne]
      exact List.mem_singleton_self _
    simp at hmem
  rw [render, hfail]
  rfl

theorem exists_render_iff {resp : Response X} {config : ServerConfig}
    (hfit : WithinLimit resp config) :
    (∃ out, render resp config = .ok out) ↔ ValidHeaderValue config.serverName := by
  constructor
  · intro hout
    by_contra h
    obtain ⟨out, hout⟩ := hout
    rw [render_of_invalid hX resp h] at hout
    cases hout
  · intro h
    obtain ⟨out, hout, -⟩ := render_of_valid hX h hfit
    exact ⟨out, hout⟩

/-- A response with nothing but a content type leaves room for the `server` header. -/
theorem carries_withinLimit {resp : Response X} {status : StatusCode} {contentType : Str}
    {body : Bytes} (h : resp.Carries status contentType body) (config : ServerConfig) :
    WithinLimit resp config := by
  have hserver := card_serverNames_le X config
  have hunion := Finset.card_union_le resp.names (serverNames X config)
  have htwo := hX.two_le_maxNames
  have hone : resp.names.card = 1 := by
    rw [h.names_eq, Finset.card_singleton]
  unfold WithinLimit
  omega

end Documented

end RustApi
