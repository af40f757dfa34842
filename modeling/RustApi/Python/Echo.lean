import RustApi.Python.Serving

/-!
# What survives the way to Python and back

A handler that returns what it was given shows what the two conversions keep together.

* `text_echoed` — a body comes back unchanged exactly when it is UTF-8, however it was cut into frames;
  otherwise the answer says where it stops being text.
* `headers_echoed` — a header comes back with the last of its values that can be read, byte for byte,
  in whatever order the dictionary is iterated over.
-/

namespace RustApi

open RustStd StepRuns

variable {X : HttpCrate}

/-! ### The body -/

/-- The text of a body is there exactly when the body is encoded text. -/
theorem PyRequest.text_eq_ok_iff {req : PyRequest} {s : Str} :
    req.text = .ok s ↔ req.body = utf8 s := by
  rw [← fromUtf8_eq_ok_iff, PyRequest.text]
  cases fromUtf8 req.body with
  | error e => simp [Except.mapError]
  | ok t => simp [Except.mapError]

/-- Otherwise the exception says where it stops being text. -/
theorem PyRequest.text_eq_error {req : PyRequest} (h : ∀ s, req.body ≠ utf8 s) :
    ∃ s b rest, req.body = utf8 s ++ b :: rest ∧ (∀ t rest', req.body = utf8 t ++ rest' → t <+: s) ∧
      req.text = .error ("ValueError: body is not valid UTF-8: ".toList ++
        (utf8ErrorAt (utf8 s).length b rest).display) := by
  cases hbody : fromUtf8 req.body with
  | ok s => exact absurd (fromUtf8_eq_ok_iff.mp hbody) (h s)
  | error e =>
      obtain ⟨s, b, rest, hcut, rfl, hlongest⟩ := fromUtf8_error hbody
      refine ⟨s, b, rest, hcut, hlongest, ?_⟩
      rw [PyRequest.text, hbody]
      rfl

namespace Server

variable {F : Type} {M : Matchit (PyHandler F)} (serdeJson : SerdeJson) {P : PyO3}
  (server : Server M)

/-- **A body that is text comes back as it was**, whatever frames it came in and whatever else the server
was doing; any other body is answered with an error that says where it stops being text. -/
theorem text_echoed (hX : X.Documented) (hP : P.Documented)
    (hname : ValidHeaderValue server.config.serverName) (events : List (ServerEvent X)) (i : ℕ × ℕ)
    (python : Python F) {x : Exchange X} {found : PyHandler F × HashMap Str Str}
    (h : Delivered P server events i python x found
      ((PyRequest.fromEngine (requestOf (x.head.withBody x.body) x.remote found.2)).text.map
        fun s => .str (pyStr s))) :
    let request := requestOf (x.head.withBody x.body) x.remote found.2
    let outs := produced (entriesOf ServerEvent.on i (server.trace serdeJson events))
    ∃ out, outs = [.called found.1 request, .answered out] ∧
      ((∃ s, dataOf x.body = utf8 s) →
        Sent server.config out .ok "text/plain; charset=utf-8".toList [] (dataOf x.body)) ∧
      ((∀ s, dataOf x.body ≠ utf8 s) → ∃ s b rest, dataOf x.body = utf8 s ++ b :: rest ∧
        (∀ t rest', dataOf x.body = utf8 t ++ rest' → t <+: s) ∧
        Sent server.config out .internalServerError "application/json; charset=utf-8".toList []
          (errorBody serdeJson ("ValueError: body is not valid UTF-8: ".toList ++
            (utf8ErrorAt (utf8 s).length b rest).display))) := by
  intro request outs
  let pyReq := PyRequest.fromEngine request
  by_cases htext : ∃ s, dataOf x.body = utf8 s
  · obtain ⟨s, hs⟩ := htext
    have hread : pyReq.text = .ok s := PyRequest.text_eq_ok_iff.mpr hs
    rw [show PyRequest.text (PyRequest.fromEngine _) = _ from hread] at h
    obtain ⟨out, hout, hsent⟩ := h.exists_sent serdeJson server hX hP hname (.str s)
      hX.two_le_maxNames (by decide)
    refine ⟨out, hout, ?_, fun hno => absurd hs (hno s)⟩
    intro _
    rw [hs]
    exact hsent
  · have hno : ∀ s, pyReq.body ≠ utf8 s := fun s hs => htext ⟨s, hs⟩
    obtain ⟨s, b, rest, hcut, hlongest, hread⟩ := PyRequest.text_eq_error hno
    rw [show PyRequest.text (PyRequest.fromEngine _) = _ from hread] at h
    obtain ⟨out, hout, hsent⟩ := h.exists_sent serdeJson server hX hP hname (.raised _)
      hX.two_le_maxNames (by decide)
    exact ⟨out, hout, fun hs => absurd hs htext, fun _ => ⟨s, b, rest, hcut, hlongest, hsent⟩⟩

/-- A function that returns `request.text()`. -/
def textPython : Python ℕ where
  newRequest _ := .ok ()
  call1 _ req := req.text.map fun s => .str (pyStr s)
  isawaitable _ := .ok false
  spawnBlocking v := .ok (.ok v)

theorem comesTo_textPython (callback : ℕ) (req : PyRequest) :
    textPython.comesTo callback req = req.text.map fun s => .str (pyStr s) := by
  show ((req.text.map fun s => PyVal.str (pyStr s)) >>= fun v => Except.ok v) = _
  cases req.text <;> rfl

/-- A user is asked for with a body of two frames; the second byte is in no text. -/
def opaqueExchange : Exchange plainHttp where
  remote := ⟨"127.0.0.1:5000".toList⟩
  head := getUserHead []
  body := [.ok (.data [97]), .ok (.data [255])]
  reply := .ok (.error
    "ValueError: body is not valid UTF-8: invalid utf-8 sequence of 1 bytes from index 1".toList)

def opaqueEvents : List (ServerEvent plainHttp) :=
  [.conn 0 (.accepted opaqueExchange.remote), .conn 0 (.stream 1 (.request opaqueExchange.head)),
    .conn 0 (.stream 1 (.frame (some (.ok (.data [97]))))),
    .conn 0 (.stream 1 (.frame (some (.ok (.data [255]))))), .conn 0 (.stream 1 (.frame none)),
    .conn 0 (.stream 1 (.reply opaqueExchange.reply))]

theorem delivered_opaque : ∃ found, Delivered plainPyO3 pythonServer opaqueEvents (0, 1) textPython
    opaqueExchange found ((PyRequest.fromEngine (requestOf
      (opaqueExchange.head.withBody opaqueExchange.body) opaqueExchange.remote found.2)).text.map
        fun s => .str (pyStr s)) := by
  have hread : Readable opaqueExchange.body pythonServer.config.maxBodySize :=
    (readable_data _ _ _).mpr ⟨by decide, (readable_data _ _ _).mpr ⟨by decide, readable_nil _⟩⟩
  have htext : (fromUtf8 [97, 255]).mapError
      (fun e => "ValueError: body is not valid UTF-8: ".toList ++ e.display) = .error
        "ValueError: body is not valid UTF-8: invalid utf-8 sequence of 1 bytes from index 1".toList := by
    decide +kernel
  have hsome : (pythonServer.router.matchRoute ⟨"GET".toList⟩ "/users/42".toList).isOk = true := by
    decide +kernel
  cases hmatch : pythonServer.router.matchRoute ⟨"GET".toList⟩ "/users/42".toList with
  | error e =>
      rw [hmatch] at hsome
      cases hsome
  | ok found =>
      refine ⟨found, List.prefix_refl _, hread, hmatch, ?_, comesTo_textPython _ _⟩
      rw [handle_snd, comesTo_textPython]
      show _ = replyOf plainPyO3 (((fromUtf8 [97, 255]).mapError
        fun e => "ValueError: body is not valid UTF-8: ".toList ++ e.display).map
          fun s => PyVal.str (pyStr s))
      rw [htext]
      rfl

theorem opaque_ne_utf8 (s : Str) : dataOf opaqueExchange.body ≠ utf8 s := by
  intro hs
  have hok : fromUtf8 [97, 255] = .ok s := fromUtf8_eq_ok_iff.mpr hs
  have herr : (fromUtf8 [97, 255]).isOk = false := by decide +kernel
  rw [hok] at herr
  cases herr

/-- The first byte is the longest text the body begins with. -/
theorem opaque_display {s : Str} {b : UInt8} {rest : Bytes}
    (hcut : dataOf opaqueExchange.body = utf8 s ++ b :: rest)
    (hlongest : ∀ t rest', dataOf opaqueExchange.body = utf8 t ++ rest' → t <+: s) :
    (utf8ErrorAt (utf8 s).length b rest).display =
      "invalid utf-8 sequence of 1 bytes from index 1".toList := by
  obtain ⟨t, rfl⟩ : "a".toList <+: s := hlongest "a".toList [255] (by decide)
  change [97, 255] = 97 :: (utf8 t ++ b :: rest) at hcut
  have hlen := congrArg List.length hcut
  simp only [List.length_cons, List.length_append, List.length_nil] at hlen
  have ht : utf8 t = [] := List.length_eq_zero_iff.mp (by omega)
  have hrest : rest = [] := List.length_eq_zero_iff.mp (by omega)
  rw [ht, hrest] at hcut
  show (utf8ErrorAt (97 :: utf8 t).length b rest).display = _
  rw [ht, hrest, ← (List.cons.inj (List.cons.inj hcut).2).1]
  decide +kernel

/-- Three bytes of text in two frames, and two bytes that are none. -/
theorem text_echoed_abc :
    (∃ handler request out,
      produced (entriesOf ServerEvent.on (0, 1) (pythonServer.trace plainJson (getUserEvents []
        (replyOf plainPyO3 (.ok (.str (pyStr "abc".toList))))))) =
          [.called handler request, .answered out] ∧
      Sent ServerConfig.default out .ok "text/plain; charset=utf-8".toList []
        (utf8 "abc".toList)) ∧
    ∃ handler request out,
      produced (entriesOf ServerEvent.on (0, 1) (pythonServer.trace plainJson opaqueEvents)) =
          [.called handler request, .answered out] ∧
      out.status = .internalServerError ∧ out.body = errorBody plainJson
        "ValueError: body is not valid UTF-8: invalid utf-8 sequence of 1 bytes from index 1".toList := by
  constructor
  · obtain ⟨found, h⟩ := delivered_user [] (comesTo_pythonOf false (.str (pyStr "abc".toList)))
    obtain ⟨out, hout, hsent, -⟩ := text_echoed plainJson pythonServer plainHttp_documented
      plainPyO3_documented (by decide) _ _ _ h
    exact ⟨_, _, out, hout, hsent ⟨"abc".toList, rfl⟩⟩
  · obtain ⟨found, h⟩ := delivered_opaque
    obtain ⟨out, hout, -, hsent⟩ := text_echoed plainJson pythonServer plainHttp_documented
      plainPyO3_documented (by decide) _ _ _ h
    obtain ⟨s, b, rest, hcut, hlongest, hsent⟩ := hsent opaque_ne_utf8
    rw [opaque_display hcut hlongest] at hsent
    exact ⟨_, _, out, hout, hsent.status_eq, hsent.body_eq⟩

end Server

/-! ### The headers -/

/-- The last value of a name that `to_str` can read. -/
def lastReadable (X : HttpCrate) (headers : X.HeaderMap) (name : X.HeaderName) :
    Option X.HeaderValue :=
  ((X.valuesOf headers name).filter fun v => (X.valueToStr v).isSome).getLast?

theorem readableValues_getLast? (headers : X.HeaderMap) (n : X.HeaderName) :
    (readableValues X headers n).getLast? = (lastReadable X headers n).bind X.valueToStr := by
  unfold readableValues lastReadable
  generalize X.valuesOf headers n = values
  induction values using List.reverseRecOn with
  | nil => rfl
  | append_singleton values v ih =>
      rw [List.filterMap_append, List.filter_append]
      cases hv : X.valueToStr v with
      | none => simp [hv, ih]
      | some s => simp [hv]

section Headers

variable (hX : X.Documented) (hN : X.NamesDocumented) (hV : X.ValuesDocumented) {req : Request X}
  (hparsed : ∀ e ∈ X.mapIter req.headers, ∃ bs, X.nameFromBytes bs = some e.1)
  {m : IteratedMap Str Str} (hm : HashMap.collect m.entries = (PyRequest.fromEngine req).headers)

/-- An entry of an iterated map is what the map holds under its key. -/
theorem mem_entries_iff {m : IteratedMap Str Str} {k s : Str} :
    (k, s) ∈ m.entries ↔ (HashMap.collect m.entries).get k = some s := by
  constructor
  · intro h
    have hsingle : HashMap.SingleValued m.entries := by
      intro e he e' he' hkey
      rw [List.inj_on_of_nodup_map m.nodup he he' hkey]
    exact hsingle.get_collect h
  · intro h
    exact HashMap.mem_of_get_collect h

include hN hparsed hm

/-- What a dictionary of the request's headers gives to a name: its last readable value. -/
theorem mem_validEntries_echo (n : X.HeaderName) (v : X.HeaderValue) :
    (n, v) ∈ Response.validEntries X m.entries ↔
      ∃ s, (readableValues X req.headers n).getLast? = some s ∧ X.valueFromStr s = some v := by
  rw [Response.mem_validEntries]
  constructor
  · intro h
    obtain ⟨⟨k, s⟩, hmem, hname, hvalue⟩ := h
    have hget := mem_entries_iff.mp hmem
    rw [hm] at hget
    obtain ⟨e, he, -, rfl⟩ := fromEngine_headers_keys req (HashMap.mem_keys.mpr ⟨s, hget⟩)
    obtain ⟨bs, hbs⟩ := hparsed e he
    have hsame : X.nameFromBytes (utf8 (X.nameAsStr e.1)) = some e.1 := by
      rw [hN.nameFromBytes_asStr bs e.1 hbs, hN.nameFromBytes_lower, hbs]
    rw [hsame, Option.some.injEq] at hname
    rw [fromEngine_headers_get hN, hname] at hget
    exact ⟨s, hget, hvalue⟩
  · intro h
    obtain ⟨s, hlast, hvalue⟩ := h
    obtain ⟨w, hw, -⟩ := readableValues_ne_nil_iff.mp (List.ne_nil_of_mem (List.mem_of_getLast? hlast))
    obtain ⟨bs, hbs⟩ := hparsed (n, w) hw
    refine ⟨(X.nameAsStr n, s), ?_, ?_, hvalue⟩
    · rw [mem_entries_iff, hm, fromEngine_headers_get hN, hlast]
    · show X.nameFromBytes (utf8 (X.nameAsStr n)) = some n
      rw [hN.nameFromBytes_asStr bs n hbs, hN.nameFromBytes_lower, hbs]

include hX hV

/-- **A name that comes back has the last value that can be read, as it was**, and any other name what it
had. -/
theorem echoed_values (n : X.HeaderName) (old : List X.HeaderValue) :
    (X.overwritten (Response.validEntries X m.entries) n old).map X.valueAsBytes =
      match lastReadable X req.headers n with
      | some v => [X.valueAsBytes v]
      | none => old.map X.valueAsBytes := by
  have hlast := readableValues_getLast? req.headers n
  unfold HttpCrate.overwritten
  cases hv : lastReadable X req.headers n with
  | none =>
      rw [hv] at hlast
      have hnone : X.valuesIn (Response.validEntries X m.entries) n = [] := by
        rw [List.eq_nil_iff_forall_not_mem]
        intro w hw
        obtain ⟨s, hs, -⟩ := (mem_validEntries_echo hN hparsed hm n w).mp (HttpCrate.mem_valuesIn.mp hw)
        rw [hlast] at hs
        cases hs
      rw [hnone]
      rfl
  | some v =>
      obtain ⟨s, hs⟩ : ∃ s, X.valueToStr v = some s := by
        have hmem := List.mem_of_getLast? hv
        rw [List.mem_filter] at hmem
        exact Option.isSome_iff_exists.mp hmem.2
      rw [hv, Option.bind_some, hs] at hlast
      obtain ⟨w, hw⟩ := hX.exists_valueFromStr (hV.toStr_valid v s hs)
      have hmem : w ∈ X.valuesIn (Response.validEntries X m.entries) n :=
        HttpCrate.mem_valuesIn.mpr ((mem_validEntries_echo hN hparsed hm n w).mpr ⟨s, hlast, hw⟩)
      obtain ⟨u, hu⟩ := Option.isSome_iff_exists.mp
        (List.getLast?_isSome.mpr (List.ne_nil_of_mem hmem))
      obtain ⟨s', hs', hu'⟩ := (mem_validEntries_echo hN hparsed hm n u).mp
        (HttpCrate.mem_valuesIn.mp (List.mem_of_getLast? hu))
      rw [hlast, Option.some.injEq] at hs'
      rw [hu, Option.map_some, Option.getD_some, List.map_singleton, hX.valueFromStr_bytes s' u hu',
        ← hs', hV.toStr_bytes v s hs]

end Headers

namespace Server

variable {F : Type} {M : Matchit (PyHandler F)} (serdeJson : SerdeJson) {P : PyO3}
  (server : Server M)

/-- **Headers that a handler sends back come back**: each name has the last of its values that `to_str` can
read, byte for byte.  Only the two names that the server sets itself differ: the content type gives way to
that of the request, and the server string comes after the one of the request. -/
theorem headers_echoed (hX : X.Documented) (hN : X.NamesDocumented) (hV : X.ValuesDocumented)
    (hP : P.Documented) (hname : ValidHeaderValue server.config.serverName)
    (events : List (ServerEvent X)) (i : ℕ × ℕ) (python : Python F) {x : Exchange X}
    {found : PyHandler F × HashMap Str Str} (body : Bytes) (statusCode : Option UInt16)
    {contentType : Str} (hct : ValidHeaderValue contentType) {m : IteratedMap Str Str}
    (h : Delivered P server events i python x found (.ok (.response
      (PyResponse.new body statusCode (some contentType) (some m)))))
    (hm : HashMap.collect m.entries = (PyRequest.fromEngine
      (requestOf (x.head.withBody x.body) x.remote found.2)).headers)
    (hparsed : ∀ e ∈ X.mapIter x.head.headers, ∃ bs, X.nameFromBytes bs = some e.1)
    (hlen : m.entries.length + 2 ≤ X.maxNames) :
    ∃ out, produced (entriesOf ServerEvent.on i (server.trace serdeJson events)) =
        [.called found.1 (requestOf (x.head.withBody x.body) x.remote found.2), .answered out] ∧
      out.body = body ∧
      ∀ n, (X.valuesOf out.headers n).map X.valueAsBytes =
        (match lastReadable X x.head.headers n with
          | some v => [X.valueAsBytes v]
          | none => if n = X.contentType then [utf8 contentType] else []) ++
        (X.valuesIn (serverEntries X server.config) n).map X.valueAsBytes := by
  obtain ⟨out, hout, hsent⟩ := h.exists_sent serdeJson server hX hP hname (.response _) hlen hct
  refine ⟨out, hout, hsent.body_eq, ?_⟩
  intro n
  obtain ⟨ct, hctv, hvalues⟩ := hsent.headers_eq
  have hold : (if n = X.contentType then [ct] else []).map X.valueAsBytes =
      if n = X.contentType then [utf8 contentType] else [] := by
    split
    · rw [List.map_singleton, hX.valueFromStr_bytes _ ct hctv]
      rfl
    · rfl
  have hecho := echoed_values hX hN hV hparsed hm n (if n = X.contentType then [ct] else [])
  rw [hold] at hecho
  rw [hvalues, List.map_append]
  exact congrArg (· ++ _) hecho

/-- The dictionary that Python sees of the headers of `twoProxies`. -/
def lastProxy : IteratedMap Str Str :=
  ⟨[("x-forwarded-for".toList, "10.0.0.2".toList)], by decide⟩

theorem headers_echoed_proxies : ∃ handler request out,
    produced (entriesOf ServerEvent.on (0, 1) (pythonServer.trace plainJson
      (getUserEvents twoProxies.headers (replyOf plainPyO3 (.ok (.response
        (PyResponse.new [] none (some "text/plain".toList) (some lastProxy)))))))) =
        [.called handler request, .answered out] ∧
    (plainHttp.valuesOf out.headers (utf8 "x-forwarded-for".toList)).map plainHttp.valueAsBytes =
      [utf8 "10.0.0.2".toList] := by
  obtain ⟨found, h⟩ := delivered_user twoProxies.headers (comesTo_pythonOf false
    (.response (PyResponse.new [] none (some "text/plain".toList) (some lastProxy))))
  have hname : plainName (utf8 "x-forwarded-for".toList) =
      some (utf8 "x-forwarded-for".toList) := by
    decide +kernel
  have hkept : HashMap.collect lastProxy.entries =
      HashMap.collect (readableEntries plainHttp twoProxies.headers) := by
    decide +kernel
  have hparsed : ∀ e ∈ plainHttp.mapIter twoProxies.headers,
      ∃ bs, plainHttp.nameFromBytes bs = some e.1 := by
    intro e he
    refine ⟨utf8 "x-forwarded-for".toList, (plainHttp_nameFromBytes _).trans (hname.trans ?_)⟩
    rcases List.mem_pair.mp he with rfl | rfl
    · rfl
    · rfl
  obtain ⟨out, hout, -, hvalues⟩ := headers_echoed plainJson pythonServer plainHttp_documented
    plainHttp_namesDocumented plainHttp_valuesDocumented plainPyO3_documented (by decide) _ _ _ []
    none (by decide) h hkept hparsed (by decide)
  refine ⟨_, _, out, hout, ?_⟩
  exact (hvalues (utf8 "x-forwarded-for".toList)).trans (by decide +kernel)

end Server

end RustApi
