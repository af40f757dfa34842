import RustApi.Engine.PlainHttp
import RustApi.Engine.Request
import RustApi.Python.Values

/-!
# Requests, as Python sees them

`PyRequest.fromEngine` copies a request of the engine field by field.  Only the headers change their
shape: a header map may hold several values under a name, and the `HashMap` they are collected into
one for each key.  Values that are no visible ASCII are left out.

`headers_kept_iff` compares what is left with the map that `parseQuery` would make of such entries, in
which the values of a key are joined: the two agree exactly while no name has two readable values.
-/

namespace RustApi

open RustStd FormEncoding

/-- The Python-visible request. -/
structure PyRequest where
  method : Str
  path : Str
  queryString : Str
  queryParams : HashMap Str Str
  pathParams : HashMap Str Str
  headers : HashMap Str Str
  body : Bytes
  remoteAddr : Option Str

/-- The pairs that are collected: the name and the text of each value that `to_str` can read. -/
def readableEntries (X : HttpCrate) (headers : X.HeaderMap) : List (Str × Str) :=
  (X.mapIter headers).filterMap fun e => (X.valueToStr e.2).map fun s => (X.nameAsStr e.1, s)

/-- Build a Python request from a request of the engine. -/
def PyRequest.fromEngine {X : HttpCrate} (req : Request X) : PyRequest where
  method := req.method
  path := req.path
  queryString := req.queryString
  queryParams := req.queryParams
  pathParams := req.pathParams
  headers := HashMap.collect (readableEntries X req.headers)
  body := req.body
  remoteAddr := req.remoteAddr.map SocketAddr.display

/-- Decode the body as UTF-8 text, or what the `ValueError` displays. -/
def PyRequest.text (req : PyRequest) : Except Str Str :=
  (fromUtf8 req.body).mapError fun e => "ValueError: body is not valid UTF-8: ".toList ++ e.display

/-- Parse the body as JSON using Python's `json.loads`. -/
def PyRequest.json (loads : PyVal → Except Str PyVal) (req : PyRequest) : Except Str PyVal :=
  loads (.bytes req.body)

/-- The texts of a name's values, in order; those that `to_str` cannot read are left out. -/
def readableValues (X : HttpCrate) (headers : X.HeaderMap) (name : X.HeaderName) : List Str :=
  (X.valuesOf headers name).filterMap X.valueToStr

/-- Every readable value of a header map is in `out`, where the values of a name are joined with `,`;
and nothing else is. -/
structure HeadersKept (X : HttpCrate) (headers : X.HeaderMap) (out : HashMap Str Str) : Prop where
  joined : ∀ e ∈ X.mapIter headers, (X.valueToStr e.2).isSome →
    out.get (X.nameAsStr e.1) = some ([','].intercalate (readableValues X headers e.1))
  keys : ∀ k ∈ out.keys, ∃ e ∈ X.mapIter headers, (X.valueToStr e.2).isSome ∧ X.nameAsStr e.1 = k

variable {X : HttpCrate}

theorem readableValues_ne_nil_iff {headers : X.HeaderMap} {n : X.HeaderName} :
    readableValues X headers n ≠ [] ↔
      ∃ v, (n, v) ∈ X.mapIter headers ∧ (X.valueToStr v).isSome := by
  rw [readableValues, ne_eq, List.filterMap_eq_nil_iff]
  simp only [HttpCrate.valuesOf, HttpCrate.mem_valuesIn, not_forall, exists_prop,
    Option.isSome_iff_ne_none, ne_eq]

/-- The pairs under the text of a name are the name's own: no two names share a text. -/
theorem readableEntries_filter (hN : X.NamesDocumented) (headers : X.HeaderMap)
    (n : X.HeaderName) :
    ((readableEntries X headers).filter fun e => e.1 = X.nameAsStr n).map Prod.snd =
      readableValues X headers n := by
  rw [readableEntries, readableValues, HttpCrate.valuesOf, HttpCrate.valuesIn]
  generalize X.mapIter headers = entries
  induction entries with
  | nil => rfl
  | cons e entries ih =>
      cases hs : X.valueToStr e.2 with
      | none =>
          rw [List.filterMap_cons_none (by rw [hs]; rfl), ih]
          by_cases hn : e.1 = n
          · rw [List.filter_cons_of_pos (by simpa using hn), List.map_cons,
              List.filterMap_cons_none hs]
          · rw [List.filter_cons_of_neg (by simpa using hn)]
      | some s =>
          rw [List.filterMap_cons_some (b := (X.nameAsStr e.1, s)) (by rw [hs]; rfl)]
          by_cases hn : e.1 = n
          · rw [List.filter_cons_of_pos (by simp [hn]), List.filter_cons_of_pos (by simpa using hn),
              List.map_cons, List.map_cons, List.filterMap_cons_some hs, ih]
          · have hname : X.nameAsStr e.1 ≠ X.nameAsStr n := fun h => hn (hN.nameAsStr_injective h)
            rw [List.filter_cons_of_neg (by simpa using hname),
              List.filter_cons_of_neg (by simpa using hn), ih]

/-- Under a name Python finds the last value that can be read. -/
theorem fromEngine_headers_get (hN : X.NamesDocumented) (req : Request X) (n : X.HeaderName) :
    (PyRequest.fromEngine req).headers.get (X.nameAsStr n) =
      (readableValues X req.headers n).getLast? := by
  rw [PyRequest.fromEngine, HashMap.get_collect, readableEntries_filter hN]

theorem fromEngine_headers_keys (req : Request X) {k : Str}
    (h : k ∈ (PyRequest.fromEngine req).headers.keys) :
    ∃ e ∈ X.mapIter req.headers, (X.valueToStr e.2).isSome ∧ X.nameAsStr e.1 = k := by
  obtain ⟨v, hv⟩ := HashMap.mem_keys.mp h
  obtain ⟨e, he, hpair⟩ := List.mem_filterMap.mp (HashMap.mem_of_get_collect hv)
  obtain ⟨s, hs, hks⟩ := Option.map_eq_some_iff.mp hpair
  refine ⟨e, he, ?_, (Prod.mk.inj hks).1⟩
  rw [hs]
  rfl

/-- **Python sees every request header exactly when no name has two readable values.**  Of several
values the last one is left. -/
theorem headers_kept_iff (hN : X.NamesDocumented) (req : Request X) :
    HeadersKept X req.headers (PyRequest.fromEngine req).headers ↔
      ∀ n, (readableValues X req.headers n).length ≤ 1 := by
  have hsep : [','] ≠ [] := List.cons_ne_nil _ _
  constructor
  · intro h n
    by_cases hne : readableValues X req.headers n = []
    · rw [hne]
      exact Nat.zero_le 1
    · obtain ⟨v, hv, hs⟩ := readableValues_ne_nil_iff.mp hne
      have hget := h.joined (n, v) hv hs
      rw [fromEngine_headers_get hN, intercalate_eq_getLast_iff hsep hne] at hget
      exact hget.le
  · intro h
    refine ⟨?_, fun k hk => fromEngine_headers_keys req hk⟩
    intro e he hs
    have hne := readableValues_ne_nil_iff.mpr ⟨e.2, he, hs⟩
    have hpos := List.length_pos_iff.mpr hne
    rw [fromEngine_headers_get hN, intercalate_eq_getLast_iff hsep hne]
    exact Nat.le_antisymm (h e.1) hpos

/-- A request with the given headers and nothing else. -/
def requestWith (headers : List (Bytes × Bytes)) : Request plainHttp where
  method := "GET".toList
  path := "/headers".toList
  queryString := []
  queryParams := HashMap.empty
  headers := headers
  pathParams := HashMap.empty
  body := []
  remoteAddr := none

/-- A name with a readable value and one that is no text, and another name. -/
def customHeaders : Request plainHttp :=
  requestWith [(utf8 "x-custom".toList, utf8 "abc".toList), (utf8 "x-custom".toList, [255]),
    (utf8 "accept".toList, utf8 "*/*".toList)]

/-- The readable value of each name is kept. -/
theorem headers_kept_iff_custom :
    HeadersKept plainHttp customHeaders.headers (PyRequest.fromEngine customHeaders).headers := by
  refine (headers_kept_iff plainHttp_namesDocumented _).mpr ?_
  intro n
  by_cases hne : readableValues plainHttp customHeaders.headers n = []
  · rw [hne]
    exact Nat.zero_le 1
  · obtain ⟨v, hv, -⟩ := readableValues_ne_nil_iff.mp hne
    have hname : n = utf8 "x-custom".toList ∨ n = utf8 "accept".toList := by
      rcases List.mem_cons.mp hv with h | hrest
      · exact .inl (congrArg Prod.fst h)
      · rcases List.mem_pair.mp hrest with h | h
        · exact .inl (congrArg Prod.fst h)
        · exact .inr (congrArg Prod.fst h)
    rcases hname with rfl | rfl
    · decide +kernel
    · decide +kernel

/-- The address of a client and of a proxy, each in a header of its own. -/
def twoProxies : Request plainHttp :=
  requestWith [(utf8 "x-forwarded-for".toList, utf8 "10.0.0.1".toList),
    (utf8 "x-forwarded-for".toList, utf8 "10.0.0.2".toList)]

/-- Of the two addresses Python sees the second one. -/
theorem first_proxy_lost : plainHttp.NamesDocumented ∧
    ¬ HeadersKept plainHttp twoProxies.headers (PyRequest.fromEngine twoProxies).headers := by
  refine ⟨plainHttp_namesDocumented, ?_⟩
  intro h
  have hvalues : readableValues plainHttp twoProxies.headers (utf8 "x-forwarded-for".toList) =
      ["10.0.0.1".toList, "10.0.0.2".toList] := by
    decide +kernel
  have hjoined := h.joined (utf8 "x-forwarded-for".toList, utf8 "10.0.0.1".toList)
    List.mem_cons_self (by decide +kernel)
  rw [fromEngine_headers_get plainHttp_namesDocumented, hvalues] at hjoined
  exact absurd hjoined (by decide +kernel)

end RustApi
