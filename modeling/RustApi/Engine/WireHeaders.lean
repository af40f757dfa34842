import RustApi.Engine.PlainHttp
import RustApi.Engine.Rendering

/-!
# Headers, from the response to the wire

A response's headers are *inserted*: a name has the last value it was given.  `render` then *appends*
the configured server string to whatever the response holds.  `withHeaders_values` and `render_values`
say so, name by name.

Two expectations come apart here.  `onTheWire_iff` is about the `server` header, which is the
configured one exactly when the response has none of its own.  `withHeader_appends_iff` is about
`withHeader`, which is meant to append and does so exactly as long as no name is given a second value.
-/

namespace RustApi

open RustStd

variable {X : HttpCrate}

theorem valuesIn_serverEntries_of_ne {config : ServerConfig} {n : X.HeaderName}
    (h : X.nameFromBytes (utf8 "server".toList) ≠ some n) :
    X.valuesIn (serverEntries X config) n = [] := by
  rw [List.eq_nil_iff_forall_not_mem]
  intro v hv
  rw [HttpCrate.mem_valuesIn, serverEntries] at hv
  split at hv
  · cases hv
  · exact h (HttpCrate.convert_text_eq_some_iff.mp (Option.mem_toList.mp hv)).1

section Documented

variable (hX : X.Documented)

include hX

/-- What a chain of headers leaves under a name: the last valid value, or what was there. -/
theorem Response.withHeaders_values {resp resp' : Response X} {headers : List (Str × Str)}
    (h : resp.withHeaders headers = .ok resp') :
    resp'.status = resp.status ∧ resp'.body = resp.body ∧
      resp'.names = resp.names ∪ X.namesIn (Response.validEntries X headers) ∧
      ∀ n, X.valuesOf resp'.headers n =
        X.overwritten (Response.validEntries X headers) n (X.valuesOf resp.headers n) := by
  rw [Response.withHeaders_eq] at h
  cases hm : X.insertAll resp.headers (Response.validEntries X headers) with
  | none =>
      rw [hm] at h
      cases h
  | some m =>
      rw [hm] at h
      cases h
      exact ⟨rfl, rfl, hX.namesIn_insertAll hm, hX.insertAll_valuesOf hm⟩

/-- What is rendered: the response, and the server string after its own values. -/
theorem render_values {resp : Response X} {config : ServerConfig} {out : HttpResponse X.HeaderMap}
    (h : render resp config = .ok out) :
    out.status = resp.status ∧ out.body = resp.body ∧ ∀ n, X.valuesOf out.headers n =
      X.valuesOf resp.headers n ++ X.valuesIn (serverEntries X config) n := by
  have hvalid : ValidHeaderValue config.serverName := by
    by_contra hno
    rw [render_of_invalid hX resp hno] at h
    cases h
  have hfinish : X.finish resp.status (renderCalls resp config) resp.body = some out := by
    rw [render] at h
    cases hf : X.finish resp.status (renderCalls resp config) resp.body with
    | none =>
        rw [hf] at h
        cases h
    | some r =>
        rw [hf] at h
        cases h
        rfl
  obtain ⟨hstatus, hbody, hvals⟩ :=
    hX.finish_eq _ _ _ _ _ hfinish (convert_renderCalls hX resp hvalid)
  refine ⟨hstatus, hbody, ?_⟩
  intro n
  rw [hvals, HttpCrate.valuesIn_append, HttpCrate.valuesOf]

/-- Few headers after a constructor leave room for the `server` header. -/
theorem withinLimit_of_length_le {resp₀ resp : Response X} {status : StatusCode}
    {contentType : Str} {body : Bytes} {headers : List (Str × Str)}
    (hcarries : resp₀.Carries status contentType body)
    (hheaders : resp₀.withHeaders headers = .ok resp) (config : ServerConfig)
    (hlen : headers.length + 2 ≤ X.maxNames) : WithinLimit resp config := by
  obtain ⟨-, -, hnames, -⟩ := Response.withHeaders_values hX hheaders
  have hunion := Finset.card_union_le resp.names (serverNames X config)
  have hadded := Finset.card_union_le resp₀.names (X.namesIn (Response.validEntries X headers))
  have hvalid := Response.card_validEntries_le X headers
  have hserver := card_serverNames_le X config
  rw [hcarries.names_eq, Finset.card_singleton, ← hcarries.names_eq, ← hnames] at hadded
  unfold WithinLimit
  omega

/-- The server string adds its one value to its one name. -/
theorem valuesIn_serverEntries {config : ServerConfig} (hvalid : ValidHeaderValue config.serverName)
    (hne : config.serverName ≠ []) {n : X.HeaderName} {v : X.HeaderValue}
    (hn : X.nameFromBytes (utf8 "server".toList) = some n)
    (hv : X.valueFromStr config.serverName = some v) (n' : X.HeaderName) :
    X.valuesIn (serverEntries X config) n' = if n = n' then [v] else [] := by
  obtain ⟨m, w, hm, hw, hconv⟩ := convert_server hX hvalid
  rw [hn, Option.some.injEq] at hm
  rw [hv, Option.some.injEq] at hw
  rw [serverEntries, if_neg hne, hconv, ← hm, ← hw]
  exact HttpCrate.valuesIn_singleton n n' v

end Documented

/-! ### The `server` header -/

/-- The rendered response as configured: one `server` header with the server string, one content type,
and everything else as the response has it. -/
structure OnTheWire (resp : Response X) (config : ServerConfig) (out : HttpResponse X.HeaderMap) :
    Prop where
  status_eq : out.status = resp.status
  body_eq : out.body = resp.body
  server_eq : ∀ n, X.nameFromBytes (utf8 "server".toList) = some n →
    ∃ v, X.valueFromStr config.serverName = some v ∧ X.valuesOf out.headers n = [v]
  contentType_eq : ∃ v, X.valuesOf out.headers X.contentType = [v]
  others_eq : ∀ n, n ≠ X.contentType → X.nameFromBytes (utf8 "server".toList) ≠ some n →
    X.valuesOf out.headers n = X.valuesOf resp.headers n

/-- No header of the list is a valid `server` header, in any case. -/
def NoServerHeader (headers : List (Str × Str)) : Prop :=
  ∀ kv ∈ headers, ValidHeaderValue kv.2 →
    (utf8 kv.1).map toLowerByte ≠ (utf8 "server".toList).map toLowerByte

instance (headers : List (Str × Str)) : Decidable (NoServerHeader headers) :=
  inferInstanceAs (Decidable (∀ kv ∈ headers, ValidHeaderValue kv.2 →
    (utf8 kv.1).map toLowerByte ≠ (utf8 "server".toList).map toLowerByte))

theorem lower_server_ne_contentType :
    (utf8 "server".toList).map toLowerByte ≠ (utf8 "content-type".toList).map toLowerByte := by
  decide +kernel

/-- `server` and `content-type` are different names. -/
theorem server_ne_contentType (hX : X.Documented) (hN : X.NamesDocumented) {n : X.HeaderName}
    (hn : X.nameFromBytes (utf8 "server".toList) = some n) : n ≠ X.contentType := by
  intro heq
  rw [heq] at hn
  exact lower_server_ne_contentType ((hN.nameFromBytes_eq_iff hX.contentType_eq _).mp hn)

/-- Without `server` headers no value is given to that name. -/
theorem noServerHeader_iff (hX : X.Documented) (hN : X.NamesDocumented) {n : X.HeaderName}
    (hn : X.nameFromBytes (utf8 "server".toList) = some n) (headers : List (Str × Str)) :
    NoServerHeader headers ↔ X.valuesIn (Response.validEntries X headers) n = [] := by
  rw [List.eq_nil_iff_forall_not_mem]
  simp only [HttpCrate.mem_valuesIn, Response.mem_validEntries, hN.nameFromBytes_eq_iff hn,
    not_exists, not_and]
  constructor
  · intro h v kv hkv hname hv
    refine h kv hkv ((hX.valueFromStr_isSome _).mp ?_) hname
    rw [hv]
    rfl
  · intro h kv hkv hvalid hname
    obtain ⟨v, hv⟩ := hX.exists_valueFromStr hvalid
    exact h v kv hkv hname hv

theorem overwritten_eq_nil_iff {entries : List (X.HeaderName × X.HeaderValue)}
    {n : X.HeaderName} : X.overwritten entries n [] = [] ↔ X.valuesIn entries n = [] := by
  rw [HttpCrate.overwritten]
  generalize X.valuesIn entries n = given
  induction given using List.reverseRecOn with
  | nil => simp
  | append_singleton given v _ => simp

section Built

variable (hX : X.Documented) (hN : X.NamesDocumented) {status : StatusCode} {body : Bytes}
  {contentType : Str} {headers : List (Str × Str)} {resp₀ resp : Response X}
  {config : ServerConfig} {out : HttpResponse X.HeaderMap}

include hX

/-- What a constructor returns carries what it was given. -/
theorem carries_of_new (hnew : Response.new status body contentType = .ok resp₀) :
    resp₀.Carries status contentType body := by
  have hct : ValidHeaderValue contentType := by
    by_contra hno
    rw [(Response.new_spec hX status body contentType).2 hno] at hnew
    cases hnew
  obtain ⟨r, hr, hcarries⟩ := (Response.new_spec hX status body contentType).1 hct
  rw [hnew, Except.ok.injEq] at hr
  rwa [hr]

/-- There is always one content type: a second one replaces the constructor's. -/
theorem contentType_values (hcarries : resp₀.Carries status contentType body)
    (hheaders : resp₀.withHeaders headers = .ok resp) :
    ∃ v, X.valuesOf resp.headers X.contentType = [v] := by
  obtain ⟨-, -, -, hresp⟩ := Response.withHeaders_values hX hheaders
  obtain ⟨ct, -, hold⟩ := hcarries.headers_eq
  rw [hresp, hold, if_pos rfl, HttpCrate.overwritten]
  cases (X.valuesIn (Response.validEntries X headers) X.contentType).getLast? with
  | none => exact ⟨ct, rfl⟩
  | some w => exact ⟨w, rfl⟩

include hN

/-- The `server` values on the wire: the one the response was given, if any, and the configured one. -/
theorem server_values (hcarries : resp₀.Carries status contentType body)
    (hheaders : resp₀.withHeaders headers = .ok resp)
    (hvalid : ValidHeaderValue config.serverName) (hne : config.serverName ≠ [])
    (hout : render resp config = .ok out) {n : X.HeaderName} {v : X.HeaderValue}
    (hn : X.nameFromBytes (utf8 "server".toList) = some n)
    (hv : X.valueFromStr config.serverName = some v) :
    X.valuesOf out.headers n = X.overwritten (Response.validEntries X headers) n [] ++ [v] := by
  obtain ⟨-, -, hvals⟩ := render_values hX hout
  obtain ⟨-, -, -, hresp⟩ := Response.withHeaders_values hX hheaders
  obtain ⟨ct, -, hold⟩ := hcarries.headers_eq
  rw [hvals, valuesIn_serverEntries hX hvalid hne hn hv, if_pos rfl, hresp, hold,
    if_neg (server_ne_contentType hX hN hn)]

/-- The only `server` value is the configured one when the response was given none. -/
theorem server_values_eq_singleton_iff (hcarries : resp₀.Carries status contentType body)
    (hheaders : resp₀.withHeaders headers = .ok resp)
    (hvalid : ValidHeaderValue config.serverName) (hne : config.serverName ≠ [])
    (hout : render resp config = .ok out) {n : X.HeaderName} {v : X.HeaderValue}
    (hn : X.nameFromBytes (utf8 "server".toList) = some n)
    (hv : X.valueFromStr config.serverName = some v) :
    X.valuesOf out.headers n = [v] ↔ NoServerHeader headers := by
  rw [noServerHeader_iff hX hN hn, ← overwritten_eq_nil_iff,
    server_values hX hN hcarries hheaders hvalid hne hout hn hv]
  exact List.append_left_eq_self

/-- **The `server` header on the wire is the configured one exactly when no header of the response is a
`server` header.**  Everything else is rendered as the response has it in any case, and within the
limit of a header map it is rendered. -/
theorem onTheWire_iff (hnew : Response.new status body contentType = .ok resp₀)
    (hheaders : resp₀.withHeaders headers = .ok resp)
    (hvalid : ValidHeaderValue config.serverName) (hne : config.serverName ≠ []) :
    (WithinLimit resp config → ∃ out, render resp config = .ok out) ∧
    ∀ out, render resp config = .ok out →
      (OnTheWire resp config out ↔ NoServerHeader headers) := by
  refine ⟨fun hfit => (exists_render_iff hX hfit).mpr hvalid, ?_⟩
  intro out hout
  have hcarries := carries_of_new hX hnew
  obtain ⟨n, v, hn, hv, -⟩ := convert_server hX hvalid
  obtain ⟨hstatus, hbody, hvals⟩ := render_values hX hout
  rw [← server_values_eq_singleton_iff hX hN hcarries hheaders hvalid hne hout hn hv]
  constructor
  · intro h
    obtain ⟨w, hw, hvalues⟩ := h.server_eq n hn
    rw [hv, Option.some.injEq] at hw
    rw [hw]
    exact hvalues
  · intro hone
    have hct := contentType_values hX hcarries hheaders
    refine ⟨hstatus, hbody, ?_, ?_, ?_⟩
    · intro n' hn'
      rw [hn, Option.some.injEq] at hn'
      rw [← hn']
      exact ⟨v, hv, hone⟩
    · rw [hvals, valuesIn_serverEntries_of_ne, List.append_nil]
      · exact hct
      · rw [hn, ne_eq, Option.some.injEq]
        exact server_ne_contentType hX hN hn
    · intro n' _ hn'
      rw [hvals, valuesIn_serverEntries_of_ne hn', List.append_nil]

end Built

/-- A constructor's response with few headers is built and rendered. -/
theorem exists_built (hX : X.Documented) (status : StatusCode) (body : Bytes) (contentType : Str)
    (headers : List (Str × Str)) (config : ServerConfig) (hct : ValidHeaderValue contentType)
    (hvalid : ValidHeaderValue config.serverName) (hlen : headers.length + 2 ≤ X.maxNames) :
    ∃ (resp₀ resp : Response X) (out : HttpResponse X.HeaderMap),
      Response.new status body contentType = .ok resp₀ ∧ resp₀.withHeaders headers = .ok resp ∧
        render resp config = .ok out := by
  obtain ⟨resp₀, hnew, hcarries⟩ := (Response.new_spec hX status body contentType).1 hct
  have hroom : (resp₀.names ∪ X.namesIn (Response.validEntries X headers)).card ≤ X.maxNames := by
    have hunion := Finset.card_union_le resp₀.names (X.namesIn (Response.validEntries X headers))
    have hadded := Response.card_validEntries_le X headers
    rw [hcarries.names_eq, Finset.card_singleton, ← hcarries.names_eq] at hunion
    omega
  obtain ⟨resp, hheaders⟩ := Response.exists_withHeaders hX resp₀ headers hroom
  obtain ⟨out, hout⟩ :=
    (exists_render_iff hX (withinLimit_of_length_le hX hcarries hheaders config hlen)).mpr hvalid
  exact ⟨resp₀, resp, out, hnew, hheaders, hout⟩

def idHeader : List (Str × Str) := [("X-Id".toList, "7".toList)]

def customServer : List (Str × Str) := [("Server".toList, "custom".toList)]

/-- A response with an `X-Id` header goes out with the configured `server` header. -/
theorem onTheWire_iff_xid : ∃ (resp₀ resp : Response plainHttp) (out : HttpResponse _),
    Response.new .ok (utf8 "hi".toList) "text/plain".toList = .ok resp₀ ∧
      resp₀.withHeaders idHeader = .ok resp ∧
      render resp ServerConfig.default = .ok out ∧ OnTheWire resp ServerConfig.default out := by
  have hvalid : ValidHeaderValue ServerConfig.default.serverName := by decide
  obtain ⟨resp₀, resp, out, hnew, hheaders, hout⟩ := exists_built plainHttp_documented .ok
    (utf8 "hi".toList) "text/plain".toList idHeader ServerConfig.default (by decide) hvalid
    (by decide)
  have hno : NoServerHeader idHeader := by decide +kernel
  exact ⟨resp₀, resp, out, hnew, hheaders, hout,
    ((onTheWire_iff plainHttp_documented plainHttp_namesDocumented hnew hheaders hvalid
      (by decide)).2 out hout).mpr hno⟩

/-- A response with a `Server` header of its own goes out with two. -/
theorem two_servers_on_the_wire : plainHttp.Documented ∧ plainHttp.NamesDocumented ∧
    ∃ (resp₀ resp : Response plainHttp) (out : HttpResponse _),
      Response.new .ok (utf8 "hi".toList) "text/plain".toList = .ok resp₀ ∧
        resp₀.withHeaders customServer = .ok resp ∧
        render resp ServerConfig.default = .ok out ∧
        ¬ OnTheWire resp ServerConfig.default out := by
  refine ⟨plainHttp_documented, plainHttp_namesDocumented, ?_⟩
  have hvalid : ValidHeaderValue ServerConfig.default.serverName := by decide
  obtain ⟨resp₀, resp, out, hnew, hheaders, hout⟩ := exists_built plainHttp_documented .ok
    (utf8 "hi".toList) "text/plain".toList customServer ServerConfig.default (by decide) hvalid
    (by decide)
  refine ⟨resp₀, resp, out, hnew, hheaders, hout, ?_⟩
  intro h
  obtain ⟨n, v, hn, hv, -⟩ := convert_server plainHttp_documented hvalid
  obtain ⟨w, hw, hvalues⟩ := h.server_eq n hn
  have hno := (server_values_eq_singleton_iff plainHttp_documented plainHttp_namesDocumented
    (carries_of_new plainHttp_documented hnew) hheaders hvalid (by decide) hout hn hw).mp hvalues
  have hserver : ¬ NoServerHeader customServer := by decide +kernel
  exact hserver hno

/-! ### Appending headers -/

/-- The last value, or else the old ones: that is all of them exactly when the first value given is the
only one. -/
theorem overwritten_eq_append_iff (entries : List (X.HeaderName × X.HeaderValue))
    (n : X.HeaderName) (old : List X.HeaderValue) :
    X.overwritten entries n old = old ++ X.valuesIn entries n ↔
      (X.valuesIn entries n ≠ [] → (old ++ X.valuesIn entries n).length = 1) := by
  rw [HttpCrate.overwritten]
  generalize X.valuesIn entries n = given
  induction given using List.reverseRecOn with
  | nil => simp
  | append_singleton given v _ =>
      rw [List.getLast?_append_cons, List.getLast?_singleton, Option.map_some, Option.getD_some]
      constructor
      · intro h _
        rw [← h]
        rfl
      · intro h
        have hlen := h (by simp)
        rw [List.length_append, List.length_append, List.length_singleton] at hlen
        have hold : old = [] := List.eq_nil_of_length_eq_zero (by omega)
        have hgiven : given = [] := List.eq_nil_of_length_eq_zero (by omega)
        rw [hold, hgiven]
        rfl

/-- Every name but the two that the server sets has the values it had, followed by those it is given. -/
def Appended (resp : Response X) (headers : List (Str × Str)) (out : HttpResponse X.HeaderMap) :
    Prop :=
  ∀ n, n ≠ X.contentType → X.nameFromBytes (utf8 "server".toList) ≠ some n →
    X.valuesOf out.headers n =
      X.valuesOf resp.headers n ++ X.valuesIn (Response.validEntries X headers) n

/-- A name that is given a value has this one value in all. -/
def GivenOnce (resp : Response X) (headers : List (Str × Str)) : Prop :=
  ∀ n, n ≠ X.contentType → X.nameFromBytes (utf8 "server".toList) ≠ some n →
    X.valuesIn (Response.validEntries X headers) n ≠ [] →
    (X.valuesOf resp.headers n ++ X.valuesIn (Response.validEntries X headers) n).length = 1

section Appending

variable (hX : X.Documented) {resp resp' : Response X} {headers : List (Str × Str)}
  {config : ServerConfig} {out : HttpResponse X.HeaderMap}

include hX

/-- Headers that fit together with the `server` header are added and rendered. -/
theorem exists_rendered (resp : Response X) (headers : List (Str × Str)) (config : ServerConfig)
    (hvalid : ValidHeaderValue config.serverName)
    (hfit : (resp.names ∪ X.namesIn (Response.validEntries X headers) ∪
      serverNames X config).card ≤ X.maxNames) :
    ∃ resp' out, resp.withHeaders headers = .ok resp' ∧ render resp' config = .ok out := by
  have hroom : (resp.names ∪ X.namesIn (Response.validEntries X headers)).card ≤ X.maxNames :=
    (Finset.card_le_card Finset.subset_union_left).trans hfit
  obtain ⟨resp', hresp'⟩ := Response.exists_withHeaders hX resp headers hroom
  obtain ⟨-, -, hnames, -⟩ := Response.withHeaders_values hX hresp'
  rw [← hnames] at hfit
  obtain ⟨out, hout⟩ := (exists_render_iff hX hfit).mpr hvalid
  exact ⟨resp', out, hresp', hout⟩

/-- The values a name is given follow those it has when there is one in all, or none is given. -/
theorem appended_iff (hresp' : resp.withHeaders headers = .ok resp')
    (hout : render resp' config = .ok out) {n : X.HeaderName}
    (hn : X.nameFromBytes (utf8 "server".toList) ≠ some n) :
    X.valuesOf out.headers n =
        X.valuesOf resp.headers n ++ X.valuesIn (Response.validEntries X headers) n ↔
      (X.valuesIn (Response.validEntries X headers) n ≠ [] →
        (X.valuesOf resp.headers n ++
          X.valuesIn (Response.validEntries X headers) n).length = 1) := by
  obtain ⟨-, -, hvals⟩ := render_values hX hout
  obtain ⟨-, -, -, hresp⟩ := Response.withHeaders_values hX hresp'
  rw [hvals, valuesIn_serverEntries_of_ne hn, List.append_nil, hresp, overwritten_eq_append_iff]

end Appending

/-- **`withHeader` appends as long as no name is given a second value.**  The values a name is given
follow those it has exactly when there are none to follow; otherwise only the last one is left. -/
theorem withHeader_appends_iff (hX : X.Documented) (resp : Response X) (headers : List (Str × Str))
    (config : ServerConfig) :
    (ValidHeaderValue config.serverName →
      (resp.names ∪ X.namesIn (Response.validEntries X headers) ∪ serverNames X config).card ≤
        X.maxNames →
      ∃ resp' out, resp.withHeaders headers = .ok resp' ∧ render resp' config = .ok out) ∧
    ∀ resp' out, resp.withHeaders headers = .ok resp' → render resp' config = .ok out →
      (Appended resp headers out ↔ GivenOnce resp headers) := by
  refine ⟨exists_rendered hX resp headers config, ?_⟩
  intro resp' out hresp' hout
  exact forall_congr' fun n => forall_congr' fun _ => forall_congr' fun hn =>
    appended_iff hX hresp' hout hn

theorem exists_setCookie : ∃ n, plainHttp.nameFromBytes (utf8 "Set-Cookie".toList) = some n := by
  have h : (plainName (utf8 "Set-Cookie".toList)).isSome := by decide +kernel
  exact Option.isSome_iff_exists.mp h

def twoCookies : List (Str × Str) :=
  [("Set-Cookie".toList, "a=1".toList), ("Set-Cookie".toList, "b=2".toList)]

/-- A response that has a content type and a header of its own. -/
def taggedResponse : Response plainHttp where
  status := .ok
  headers := [(utf8 "content-type".toList, utf8 "text/plain".toList),
    (utf8 "x-tag".toList, utf8 "blue".toList)]
  body := []

/-- Two headers with names of their own, and one that is dropped. -/
def cookieAndId : List (Str × Str) :=
  [("Set-Cookie".toList, "a=1".toList), ("bad name".toList, "x".toList), ("X-Id".toList, "7".toList)]

/-- Names that the response does not have are appended. -/
theorem withHeader_appends_iff_cookie : ∃ (resp' : Response plainHttp) (out : HttpResponse _),
    taggedResponse.withHeaders cookieAndId = .ok resp' ∧
      render resp' ServerConfig.default = .ok out ∧ Appended taggedResponse cookieAndId out := by
  have happends := withHeader_appends_iff plainHttp_documented taggedResponse cookieAndId
    ServerConfig.default
  obtain ⟨resp', out, hresp', hout⟩ := happends.1 (by decide) (by decide +kernel)
  refine ⟨resp', out, hresp', hout, (happends.2 resp' out hresp' hout).mpr ?_⟩
  have hentries : Response.validEntries plainHttp cookieAndId =
      [(utf8 "set-cookie".toList, utf8 "a=1".toList), (utf8 "x-id".toList, utf8 "7".toList)] :=
    rfl
  intro n _ _ hgiven
  rw [← HttpCrate.mem_namesIn, HttpCrate.namesIn, List.mem_toFinset, hentries] at hgiven
  rw [hentries]
  rcases List.mem_pair.mp hgiven with rfl | rfl
  · decide +kernel
  · decide +kernel

/-- Of two cookies only the second one reaches the client. -/
theorem second_cookie_overwrites : plainHttp.Documented ∧ plainHttp.NamesDocumented ∧
    ∃ (resp' : Response plainHttp) (out : HttpResponse _),
      Response.withHeaders ⟨.ok, [], []⟩ twoCookies = .ok resp' ∧
      render resp' ServerConfig.default = .ok out ∧ ¬ Appended ⟨.ok, [], []⟩ twoCookies out := by
  refine ⟨plainHttp_documented, plainHttp_namesDocumented, ?_⟩
  obtain ⟨cookie, hcookie⟩ := exists_setCookie
  obtain ⟨v, hv⟩ := plainHttp_documented.exists_valueFromStr
    (show ValidHeaderValue "a=1".toList by decide)
  obtain ⟨w, hw⟩ := plainHttp_documented.exists_valueFromStr
    (show ValidHeaderValue "b=2".toList by decide)
  have hentries : Response.validEntries plainHttp twoCookies = [(cookie, v), (cookie, w)] := by
    rw [twoCookies, Response.validEntries_cons hcookie hv, Response.validEntries_cons hcookie hw]
    rfl
  have hcontentType : cookie ≠ plainHttp.contentType := by
    intro heq
    rw [heq] at hcookie
    have hlower := (plainHttp_namesDocumented.nameFromBytes_eq_iff
      plainHttp_documented.contentType_eq _).mp hcookie
    exact absurd hlower (by decide +kernel)
  have hserver : plainHttp.nameFromBytes (utf8 "server".toList) ≠ some cookie := by
    rw [ne_eq, plainHttp_namesDocumented.nameFromBytes_eq_iff hcookie]
    decide +kernel
  have hgiven : plainHttp.valuesIn [(cookie, v), (cookie, w)] cookie = [v, w] := by
    simp [HttpCrate.valuesIn]
  obtain ⟨resp', out, hresp', hout⟩ := exists_rendered plainHttp_documented ⟨.ok, [], []⟩ twoCookies
    ServerConfig.default (by decide) (by decide +kernel)
  refine ⟨resp', out, hresp', hout, ?_⟩
  intro h
  have hlen := (appended_iff plainHttp_documented hresp' hout hserver).mp
    (h cookie hcontentType hserver)
  rw [hentries, hgiven] at hlen
  have htwo := hlen (List.cons_ne_nil v [w])
  cases htwo

end RustApi
