import RustApi.Engine.Sending
import RustApi.Python.Handler

/-!
# What is answered for a Python value

`AnswerFor` says which response goes with what a function comes to: a status, a content type, headers and
a body.  Every value has one (`exists_answerFor`).  Besides the types that have an arm of the conversion
there is one more case, a sequence of small integers: it is taken for bytes, where it should be serialized.

`replyRun_of_answerFor` connects it with what is rendered: conversion, error response and rendering
together make this response, and they panic exactly where the content type is no header value.
-/

namespace RustApi

open RustStd

/-- The status of a `Response` instance, if it is one. -/
def PyResponse.status (r : PyResponse) : StatusCode :=
  if h : 100 ≤ r.statusCode.toNat ∧ r.statusCode.toNat ≤ 999 then ⟨r.statusCode, h⟩
  else .internalServerError

/-- The response for what a function comes to: its status, content type, headers and body. -/
inductive AnswerFor (P : PyO3) (serdeJson : SerdeJson) :
    Except Str PyVal → StatusCode → Str → List (Str × Str) → Bytes → Prop
  | raised (e : Str) : AnswerFor P serdeJson (.error e) .internalServerError
      "application/json; charset=utf-8".toList [] (errorBody serdeJson e)
  | response (r : PyResponse) : AnswerFor P serdeJson (.ok (.response r)) r.status r.contentType
      r.headers.entries r.body
  | str (s : Str) : AnswerFor P serdeJson (.ok (.str (pyStr s))) .ok "text/plain; charset=utf-8".toList
      [] (utf8 s)
  | bytes {v : PyVal} {b : Bytes} : v = .bytes b ∨ v = .bytearray b →
      AnswerFor P serdeJson (.ok v) .ok "application/octet-stream".toList [] b
  /-- Any other sequence of integers in `0..=255` goes out as its bytes, not as JSON. -/
  | smallIntegers {v : PyVal} {xs : List PyVal} {b : Bytes} : v.items = some xs →
      xs.map PyVal.asU8 = b.map some →
        AnswerFor P serdeJson (.ok v) .ok "application/octet-stream".toList [] b
  | json {v : PyVal} {s : Str} : ¬ v.HasArm → ¬ v.ByteItems → P.dumps v = .ok (.str (pyStr s)) →
      AnswerFor P serdeJson (.ok v) .ok "application/json; charset=utf-8".toList [] (utf8 s)
  | unserializable {v : PyVal} {e : Str} : ¬ v.HasArm → ¬ v.ByteItems → P.dumps v = .error e →
      AnswerFor P serdeJson (.ok v) .internalServerError "application/json; charset=utf-8".toList []
        (errorBody serdeJson e)

variable {X : HttpCrate} {P : PyO3} {serdeJson : SerdeJson}

/-- What the third extraction accepts is answered with its bytes. -/
theorem AnswerFor.of_extractVecU8 (hP : P.Documented) (serdeJson : SerdeJson) {v : PyVal} {b : Bytes}
    (h : P.extractVecU8 v = some b) :
    AnswerFor P serdeJson (.ok v) .ok "application/octet-stream".toList [] b := by
  rcases (hP.extractVecU8_eq v b).mp h with hv | hv | ⟨xs, hxs, hb⟩
  · exact .bytes (.inl hv)
  · exact .bytes (.inr hv)
  · exact .smallIntegers hxs hb

/-- A value with elements is no `Response` and no `str`. -/
theorem PyVal.not_str_of_items {v : PyVal} {xs : List PyVal} (h : v.items = some xs) :
    (∀ r, v ≠ .response r) ∧ ∀ s, v ≠ .str s := by
  constructor
  · intro r hr
    rw [hr] at h
    cases h
  · intro s hs
    rw [hs] at h
    cases h

/-- What is no arm's and no sequence of small integers is serialized. -/
theorem pyobjToResponse_of_no_arm (hP : P.Documented) {v : PyVal} (harm : ¬ v.HasArm)
    (hitems : ¬ v.ByteItems) :
    (∀ s, P.dumps v = .ok (.str (pyStr s)) → (pyobjToResponse P v : Run (Except Str (Response X))) = do
      let resp ← Response.json (utf8 s)
      pure (.ok resp)) ∧
    ∀ e, P.dumps v = .error e →
      (pyobjToResponse P v : Run (Except Str (Response X))) = .ok (.error e) := by
  obtain ⟨e, he⟩ := hP.extractString_error fun s (hs : v = .str (pyStr s)) => harm (hs ▸ .str s)
  have hresp : P.extractResponse v = none :=
    hP.extractResponse_none fun r (hr : v = .response r) => harm (hr ▸ .response r)
  have hvec : P.extractVecU8 v = none := by
    rw [← Option.not_isSome_iff_eq_none, hP.extractVecU8_isSome harm]
    exact hitems
  constructor
  · intro s hdumps
    have hjson : (do
        let dumped ← P.dumps v
        P.extractString dumped) = .ok s := by
      rw [hdumps]
      exact hP.extractString_str s
    simp only [pyobjToResponse, hresp, he, hvec, hjson]
  · intro e' hdumps
    have hjson : (do
        let dumped ← P.dumps v
        P.extractString dumped) = .error e' := by
      rw [hdumps]
      rfl
    simp only [pyobjToResponse, hresp, he, hvec, hjson]

/-- **Every value has an answer.** -/
theorem exists_answerFor (hP : P.Documented) (serdeJson : SerdeJson) (value : Except Str PyVal) :
    ∃ status contentType headers body,
      AnswerFor P serdeJson value status contentType headers body := by
  cases value with
  | error e => exact ⟨_, _, _, _, .raised e⟩
  | ok v =>
      by_cases harm : v.HasArm
      · cases harm with
        | response r => exact ⟨_, _, _, _, .response r⟩
        | str s => exact ⟨_, _, _, _, .str s⟩
        | bytes b => exact ⟨_, _, _, _, .bytes (.inl rfl)⟩
        | bytearray b => exact ⟨_, _, _, _, .bytes (.inr rfl)⟩
      · by_cases hitems : v.ByteItems
        · obtain ⟨b, hb⟩ := Option.isSome_iff_exists.mp ((hP.extractVecU8_isSome harm).mpr hitems)
          exact ⟨_, _, _, _, .of_extractVecU8 hP serdeJson hb⟩
        · cases hdumps : P.dumps v with
          | error e => exact ⟨_, _, _, _, .unserializable harm hitems hdumps⟩
          | ok w =>
              obtain ⟨s, rfl⟩ := hP.dumps_str v w hdumps
              exact ⟨_, _, _, _, .json harm hitems hdumps⟩

section Answer

variable {H : Type} {M : Matchit H} (server : Server M)

/-- The answer of a handler that does not fail is rendered. -/
theorem replyRun_ok (serdeJson : SerdeJson) (built : Run (Response X)) :
    server.replyRun serdeJson (do
      let resp ← built
      pure (.ok resp)) = (do
      let resp ← built
      render resp server.config) := by
  cases built with
  | error p => rfl
  | ok resp => rfl

/-- The arms that call a constructor with a constant content type. -/
theorem replyRun_constructed (serdeJson : SerdeJson) (body : Bytes) (contentType : Str) :
    server.replyRun serdeJson (do
      let resp ← (Response.ok body contentType : Run (Response X))
      pure (.ok resp)) = sendRun server.config .ok contentType [] body :=
  replyRun_ok server serdeJson _

/-- So does the third extraction. -/
theorem replyRun_extractVecU8 (hP : P.Documented) (serdeJson : SerdeJson) {v : PyVal} {b : Bytes}
    (hresp : ∀ r, v ≠ .response r) (hstr : ∀ s, v ≠ .str s) (hb : P.extractVecU8 v = some b) :
    server.replyRun serdeJson (replyOf (X := X) P (.ok v)) =
      sendRun server.config .ok "application/octet-stream".toList [] b := by
  obtain ⟨e, he⟩ := hP.extractString_error fun s => hstr (pyStr s)
  rw [replyOf, pyobjToResponse, hP.extractResponse_none hresp, he, hb]
  exact replyRun_constructed server serdeJson _ _

/-- **The answer for a value is what is rendered for it.** -/
theorem replyRun_of_answerFor (hX : X.Documented) (hP : P.Documented) {value : Except Str PyVal}
    {status : StatusCode} {contentType : Str} {headers : List (Str × Str)} {body : Bytes}
    (h : AnswerFor P serdeJson value status contentType headers body) :
    server.replyRun serdeJson (replyOf (X := X) P value) =
      sendRun server.config status contentType headers body := by
  cases h with
  | raised e => rfl
  | response r =>
      have hstatus : r.status = (X.statusFromU16 r.statusCode).getD .internalServerError := by
        rw [hX.statusFromU16_eq, PyResponse.status]
        split <;> rfl
      rw [replyOf, pyobjToResponse_response hP, replyRun_ok, hstatus]
      exact bind_assoc _ _ _
  | str s =>
      rw [replyOf, pyobjToResponse, hP.extractResponse_none (by simp), hP.extractString_str]
      exact replyRun_constructed server serdeJson _ _
  | @bytes v _ hv =>
      have hb : P.extractVecU8 v = some body := (hP.extractVecU8_eq v body).mpr (or_assoc.mp (.inl hv))
      refine replyRun_extractVecU8 server hP serdeJson ?_ ?_ hb
      · rcases hv with rfl | rfl <;> simp
      · rcases hv with rfl | rfl <;> simp
  | @smallIntegers v xs _ hxs hb =>
      obtain ⟨hresp, hstr⟩ := PyVal.not_str_of_items hxs
      exact replyRun_extractVecU8 server hP serdeJson hresp hstr
        ((hP.extractVecU8_eq v body).mpr (.inr (.inr ⟨xs, hxs, hb⟩)))
  | @json v s harm hitems hdumps =>
      rw [replyOf, (pyobjToResponse_of_no_arm hP harm hitems).1 s hdumps]
      exact replyRun_constructed server serdeJson _ _
  | @unserializable v e harm hitems hdumps =>
      rw [replyOf, (pyobjToResponse_of_no_arm hP harm hitems).2 e hdumps]
      rfl

/-- Only a `Response` instance can ask for a content type that is no header value, or for any header. -/
theorem AnswerFor.of_instance {value : Except Str PyVal} {status : StatusCode} {contentType : Str}
    {headers : List (Str × Str)} {body : Bytes}
    (h : AnswerFor P serdeJson value status contentType headers body) :
    (∃ r, value = .ok (.response r) ∧ contentType = r.contentType ∧ headers = r.headers.entries) ∨
      (∀ r, value ≠ .ok (.response r)) ∧ ValidHeaderValue contentType ∧ headers = [] := by
  cases h with
  | raised e => exact .inr ⟨fun r hr => (by cases hr), by decide, rfl⟩
  | response r => exact .inl ⟨r, rfl, rfl, rfl⟩
  | str s => exact .inr ⟨fun r hr => (by cases hr), by decide, rfl⟩
  | bytes hv =>
      refine .inr ⟨?_, by decide, rfl⟩
      intro r hr
      rw [Except.ok.inj hr] at hv
      rcases hv with hv | hv <;> cases hv
  | smallIntegers hxs _ =>
      exact .inr ⟨fun r hr => (PyVal.not_str_of_items hxs).1 r (Except.ok.inj hr), by decide, rfl⟩
  | json harm _ _ =>
      exact .inr ⟨fun r hr => harm (Except.ok.inj hr ▸ .response r), by decide, rfl⟩
  | unserializable harm _ _ =>
      exact .inr ⟨fun r hr => harm (Except.ok.inj hr ▸ .response r), by decide, rfl⟩

/-- **A value whose answer panics is an instance with a content type that is no header value**, as long as
instances have few headers. -/
theorem answer_panics_iff (hX : X.Documented) (hP : P.Documented) (serdeJson : SerdeJson)
    (hname : ValidHeaderValue server.config.serverName) {value : Except Str PyVal}
    (hfew : ∀ r, value = .ok (.response r) → r.headers.entries.length + 2 ≤ X.maxNames) :
    (∃ p, server.replyRun serdeJson (replyOf (X := X) P value) = .error p) ↔
      ∃ r, value = .ok (.response r) ∧ ¬ ValidHeaderValue r.contentType := by
  obtain ⟨status, contentType, headers, body, hanswer⟩ := exists_answerFor hP serdeJson value
  rw [replyRun_of_answerFor server hX hP hanswer]
  rcases hanswer.of_instance with ⟨r, rfl, rfl, rfl⟩ | ⟨hno, hct, rfl⟩
  · obtain ⟨hsent, hpanic⟩ := sendRun_spec hX hname status r.contentType body (hfew r rfl)
    constructor
    · intro h
      obtain ⟨p, hp⟩ := h
      refine ⟨r, rfl, fun hct => ?_⟩
      obtain ⟨out, hout, -⟩ := hsent hct
      rw [hout] at hp
      cases hp
    · intro h
      obtain ⟨r', hr', hct⟩ := h
      cases hr'
      exact ⟨_, hpanic hct⟩
  · have hlen : ([] : List (Str × Str)).length + 2 ≤ X.maxNames := hX.two_le_maxNames
    obtain ⟨out, hout, -⟩ := (sendRun_spec hX hname status contentType body hlen).1 hct
    rw [hout]
    exact iff_of_false (fun ⟨p, hp⟩ => by cases hp) fun ⟨r, hr, _⟩ => hno r hr

end Answer

end RustApi
