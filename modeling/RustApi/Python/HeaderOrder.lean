import RustApi.Python.Conversion

/-!
# Headers and the order of a `HashMap`

The headers of a `Response` instance sit in a `HashMap`, and the conversion adds them to the response
of the engine one after another, in whatever order the map yields them.  Keys that differ as strings
may be one header name: then the last one added is the one that stays.

`conversion_ordered_iff` says for which instances the order makes no difference: those that give no
name two values, whatever the case it is written in.
-/

namespace RustApi

open RustStd

variable {X : HttpCrate}

/-- The same status, the same body and the same headers. -/
structure SameResponse (resp resp' : Response X) : Prop where
  status_eq : resp.status = resp'.status
  body_eq : resp.body = resp'.body
  headers_eq : ∀ e, e ∈ X.mapIter resp.headers ↔ e ∈ X.mapIter resp'.headers

/-- Headers that differ in nothing but the case of their names have the same value, if they are valid
at all. -/
def CaseConsistent (X : HttpCrate) (headers : List (Str × Str)) : Prop :=
  ∀ kv ∈ headers, ∀ kv' ∈ headers, (X.nameFromBytes (utf8 kv.1)).isSome →
    (utf8 kv.1).map toLowerByte = (utf8 kv'.1).map toLowerByte →
    ValidHeaderValue kv.2 → ValidHeaderValue kv'.2 → kv.2 = kv'.2

instance (headers : List (Str × Str)) : Decidable (CaseConsistent X headers) :=
  inferInstanceAs (Decidable (∀ kv ∈ headers, ∀ kv' ∈ headers,
    (X.nameFromBytes (utf8 kv.1)).isSome →
    (utf8 kv.1).map toLowerByte = (utf8 kv'.1).map toLowerByte →
    ValidHeaderValue kv.2 → ValidHeaderValue kv'.2 → kv.2 = kv'.2))

/-- The conversion returns the same response for every order of the headers. -/
def OrderIndependent (X : HttpCrate) (P : PyO3) (r : PyResponse) : Prop :=
  ∀ h h' : IteratedMap Str Str, h.entries.Perm r.headers.entries →
    h'.entries.Perm r.headers.entries → ∃ resp resp' : Response X,
      pyobjToResponse P (.response { r with headers := h }) = .ok (.ok resp) ∧
      pyobjToResponse P (.response { r with headers := h' }) = .ok (.ok resp') ∧
      SameResponse resp resp'

/-! ### Consistent headers -/

section Documented

variable (hX : X.Documented)

include hX

/-- A header value determines the string it was made of. -/
theorem valueFromStr_injective {s t : Str} {v : X.HeaderValue} (hs : X.valueFromStr s = some v)
    (ht : X.valueFromStr t = some v) : s = t := by
  have hbytes := (hX.valueFromStr_bytes s v hs).symm.trans (hX.valueFromStr_bytes t v ht)
  have htext := congrArg fromUtf8Lossy hbytes
  rwa [fromUtf8Lossy_utf8, fromUtf8Lossy_utf8] at htext

/-- Headers are consistent when no name stands for two values. -/
theorem caseConsistent_iff (hN : X.NamesDocumented) (headers : List (Str × Str)) :
    CaseConsistent X headers ↔ HashMap.SingleValued (Response.validEntries X headers) := by
  constructor
  · intro h e he e' he' hname
    obtain ⟨kv, hkv, hn, hv⟩ := Response.mem_validEntries.mp he
    obtain ⟨kv', hkv', hn', hv'⟩ := Response.mem_validEntries.mp he'
    rw [← hname, hN.nameFromBytes_eq_iff hn] at hn'
    have hsome : (X.nameFromBytes (utf8 kv.1)).isSome := by
      rw [hn]
      rfl
    have hvalid : ValidHeaderValue kv.2 := (hX.valueFromStr_isSome _).mp (by rw [hv]; rfl)
    have hvalid' : ValidHeaderValue kv'.2 := (hX.valueFromStr_isSome _).mp (by rw [hv']; rfl)
    have hsame := h kv hkv kv' hkv' hsome hn'.symm hvalid hvalid'
    rw [hsame, hv'] at hv
    exact (Option.some.inj hv).symm
  · intro h kv hkv kv' hkv' hsome hlower hvalid hvalid'
    obtain ⟨n, hn⟩ := Option.isSome_iff_exists.mp hsome
    obtain ⟨v, hv⟩ := hX.exists_valueFromStr hvalid
    obtain ⟨v', hv'⟩ := hX.exists_valueFromStr hvalid'
    have hn' := (hN.nameFromBytes_eq_iff hn (utf8 kv'.1)).mpr hlower.symm
    have hsame : v = v' := h (n, v) (Response.mem_validEntries.mpr ⟨kv, hkv, hn, hv⟩) (n, v')
      (Response.mem_validEntries.mpr ⟨kv', hkv', hn', hv'⟩) rfl
    rw [← hsame] at hv'
    exact valueFromStr_injective hX hv hv'

end Documented

/-- The order of the headers has no part in how many names they have. -/
theorem PyResponse.HeadersFit.perm {r : PyResponse} (hfit : r.HeadersFit X) {h : IteratedMap Str Str}
    (hperm : h.entries.Perm r.headers.entries) :
    PyResponse.HeadersFit X { r with headers := h } := by
  have hnames : X.namesIn (Response.validEntries X h.entries) =
      X.namesIn (Response.validEntries X r.headers.entries) :=
    List.toFinset_eq_of_perm _ _ ((hperm.filterMap _).map _)
  show (insert X.contentType (X.namesIn (Response.validEntries X h.entries))).card ≤ X.maxNames
  rw [hnames]
  exact hfit

/-- Insertions that give no name two values leave the same behind in every order. -/
theorem overwritten_perm {entries entries' : List (X.HeaderName × X.HeaderValue)}
    (hperm : entries.Perm entries') (h : HashMap.SingleValued entries) (n : X.HeaderName)
    (old : List X.HeaderValue) : X.overwritten entries n old = X.overwritten entries' n old := by
  have hvals : (X.valuesIn entries n).Perm (X.valuesIn entries' n) := (hperm.filter _).map _
  have hlast : (X.valuesIn entries n).getLast? = (X.valuesIn entries' n).getLast? := by
    cases hv : (X.valuesIn entries n).getLast? with
    | none =>
        rw [List.getLast?_eq_none_iff] at hv
        rw [hv] at hvals
        rw [List.nil_perm.mp hvals]
        rfl
    | some v =>
        have hmem := List.mem_of_getLast? hv
        obtain ⟨w, hw⟩ := Option.isSome_iff_exists.mp
          (List.getLast?_isSome.mpr (List.ne_nil_of_mem (hvals.mem_iff.mp hmem)))
        have hmem' := hvals.mem_iff.mpr (List.mem_of_getLast? hw)
        have hsame : v = w :=
          h (n, v) (HttpCrate.mem_valuesIn.mp hmem) (n, w) (HttpCrate.mem_valuesIn.mp hmem') rfl
        rw [hw, hsame]
  rw [HttpCrate.overwritten, HttpCrate.overwritten, hlast]

/-- The value inserted last is the one that stays. -/
theorem overwritten_snoc (entries : List (X.HeaderName × X.HeaderValue))
    (e : X.HeaderName × X.HeaderValue) (old : List X.HeaderValue) :
    X.overwritten (entries ++ [e]) e.1 old = [e.2] := by
  rw [HttpCrate.overwritten, HttpCrate.valuesIn_append, HttpCrate.valuesIn_singleton, if_pos rfl,
    List.getLast?_append_cons, List.getLast?_singleton]
  rfl

/-! ### Two orders -/

section Orders

variable (hX : X.Documented) {P : PyO3} (hP : P.Documented) {r : PyResponse}

/-- Two conversions of consistent headers, in two orders. -/
theorem sameResponse_of_perm {h h' : IteratedMap Str Str} {resp resp' : Response X}
    (hconv : resp.ConvertedFrom { r with headers := h })
    (hconv' : resp'.ConvertedFrom { r with headers := h' }) (hperm : h.entries.Perm h'.entries)
    (hs : HashMap.SingleValued (Response.validEntries X h.entries)) : SameResponse resp resp' := by
  obtain ⟨v, hv, hvals⟩ := hconv.headers_eq
  obtain ⟨v', hv', hvals'⟩ := hconv'.headers_eq
  have hsame : v' = v := Option.some.inj (hv'.symm.trans hv)
  refine ⟨hconv.status_eq.trans hconv'.status_eq.symm, hconv.body_eq.trans hconv'.body_eq.symm, ?_⟩
  intro e
  have hn : X.valuesOf resp.headers e.1 = X.valuesOf resp'.headers e.1 := by
    rw [hvals, hvals', hsame]
    exact overwritten_perm (hperm.filterMap _) hs e.1 _
  rw [← Prod.mk.eta (p := e), ← HttpCrate.mem_valuesIn, ← HttpCrate.mem_valuesIn]
  show e.2 ∈ X.valuesOf resp.headers e.1 ↔ e.2 ∈ X.valuesOf resp'.headers e.1
  rw [hn]

include hP

theorem pyobjToResponse_response_iff (r : PyResponse) (resp : Response X) :
    pyobjToResponse P (.response r) = .ok (.ok resp) ↔ r.toResponse = .ok resp := by
  rw [pyobjToResponse_response hP]
  cases (r.toResponse : Run (Response X)) with
  | error p => simp
  | ok s => simp

include hX

/-- Consistent headers that fit are converted alike in every order. -/
theorem orderIndependent_of_singleValued (hct : ValidHeaderValue r.contentType)
    (hfit : r.HeadersFit X) (hs : HashMap.SingleValued (Response.validEntries X r.headers.entries)) :
    OrderIndependent X P r := by
  intro h h' hperm hperm'
  obtain ⟨resp, hresp⟩ := (PyResponse.exists_toResponse_iff hX (hfit.perm hperm)).mpr hct
  obtain ⟨resp', hresp'⟩ := (PyResponse.exists_toResponse_iff hX (hfit.perm hperm')).mpr hct
  refine ⟨resp, resp', (pyobjToResponse_response_iff hP _ _).mpr hresp,
    (pyobjToResponse_response_iff hP _ _).mpr hresp', ?_⟩
  exact sameResponse_of_perm (PyResponse.convertedFrom_of_toResponse hX hresp)
    (PyResponse.convertedFrom_of_toResponse hX hresp') (hperm.trans hperm'.symm)
    (hs.perm (hperm.symm.filterMap _))

/-- The valid header that is added last is in the response, with this one value. -/
theorem values_of_last {h : IteratedMap Str Str} {kvs : List (Str × Str)} {kv : Str × Str}
    {e : X.HeaderName × X.HeaderValue} {resp : Response X} (hlast : h.entries = kvs ++ [kv])
    (he : X.convert (.text kv.1 kv.2) = some e)
    (hresp : pyobjToResponse P (.response { r with headers := h }) = .ok (.ok resp)) :
    X.valuesOf resp.headers e.1 = [e.2] := by
  have hconv := PyResponse.convertedFrom_of_toResponse hX
    ((pyobjToResponse_response_iff hP _ _).mp hresp)
  obtain ⟨v, -, hvals⟩ := hconv.headers_eq
  have hentry : Response.validEntries X [kv] = [e] := List.filterMap_cons_some he
  have hentries : Response.validEntries X h.entries = Response.validEntries X kvs ++ [e] := by
    rw [hlast, ← hentry]
    exact List.filterMap_append
  rw [hvals]
  show X.overwritten (Response.validEntries X h.entries) e.1 _ = [e.2]
  rw [hentries, overwritten_snoc]

/-- Two values of one name: whichever is added last is the one in the response. -/
theorem singleValued_of_orderIndependent (h : OrderIndependent X P r) :
    HashMap.SingleValued (Response.validEntries X r.headers.entries) := by
  intro e he e' he' hname
  obtain ⟨kv, hkv, hconv⟩ := List.mem_filterMap.mp he
  obtain ⟨kv', hkv', hconv'⟩ := List.mem_filterMap.mp he'
  have hlast : ∀ kv ∈ r.headers.entries,
      (r.headers.entries.erase kv ++ [kv]).Perm r.headers.entries := fun kv hkv =>
    (List.perm_append_singleton kv _).trans (List.perm_cons_erase hkv).symm
  -- one order ends with the first of the two headers, the other with the second
  obtain ⟨resp, resp', hresp, hresp', hsame⟩ := h (r.headers.reordered _ (hlast kv hkv))
    (r.headers.reordered _ (hlast kv' hkv')) (hlast kv hkv) (hlast kv' hkv')
  have hone := values_of_last hX hP rfl hconv hresp
  have hone' := values_of_last hX hP rfl hconv' hresp'
  have hmem : e ∈ X.mapIter resp.headers := by
    apply HttpCrate.mem_valuesIn.mp
    show e.2 ∈ X.valuesOf resp.headers e.1
    rw [hone]
    exact List.mem_singleton_self _
  have hmem' : e.2 ∈ X.valuesOf resp'.headers e.1 :=
    HttpCrate.mem_valuesIn.mpr ((hsame.headers_eq e).mp hmem)
  rw [hname, hone', List.mem_singleton] at hmem'
  exact hmem'

/-- **The response is the same in every order of the headers exactly when they are consistent**, as long as
they are few enough.  Of two values for one name, written in two ways, the order decides which one is
left. -/
theorem conversion_ordered_iff (hN : X.NamesDocumented) (hct : ValidHeaderValue r.contentType)
    (hfit : r.HeadersFit X) : OrderIndependent X P r ↔ CaseConsistent X r.headers.entries := by
  rw [caseConsistent_iff hX hN]
  constructor
  · intro h
    exact singleValued_of_orderIndependent hX hP h
  · intro h
    exact orderIndependent_of_singleValued hX hP hct hfit h

end Orders

/-- A response with two spellings of `X-A`, the second with value `x`, and a content type among its
headers. -/
def respelledResponse (x : Str) : PyResponse where
  statusCode := 200
  headers := ⟨[("X-A".toList, "1".toList), ("x-a".toList, x),
    ("Content-Type".toList, "text/html".toList)], by
      show ["X-A".toList, "x-a".toList, "Content-Type".toList].Nodup
      decide⟩
  body := utf8 "hi".toList
  contentType := "text/plain".toList

/-- With one value for both spellings the order makes no difference. -/
theorem conversion_ordered_iff_respelled :
    OrderIndependent plainHttp plainPyO3 (respelledResponse "1".toList) := by
  have hfit : (respelledResponse "1".toList).HeadersFit plainHttp :=
    PyResponse.headersFit_of_length_lt (by decide)
  exact (conversion_ordered_iff plainHttp_documented plainPyO3_documented plainHttp_namesDocumented
    (by decide) hfit).mpr (by decide +kernel)

/-- With two values it does. -/
theorem respelled_order_matters :
    plainHttp.Documented ∧ plainHttp.NamesDocumented ∧ plainPyO3.Documented ∧
      ¬ OrderIndependent plainHttp plainPyO3 (respelledResponse "2".toList) := by
  refine ⟨plainHttp_documented, plainHttp_namesDocumented, plainPyO3_documented, ?_⟩
  intro h
  have hs := singleValued_of_orderIndependent plainHttp_documented plainPyO3_documented h
  rw [← caseConsistent_iff plainHttp_documented plainHttp_namesDocumented] at hs
  have hno : ¬ CaseConsistent plainHttp (respelledResponse "2".toList).headers.entries := by
    decide +kernel
  exact hno hs

end RustApi
