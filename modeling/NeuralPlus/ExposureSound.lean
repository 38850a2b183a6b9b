import NeuralPlus.Exposure
import NeuralPlus.RedactJson
import NeuralPlus.RequestErrors

/-!
# What redaction leaves in the result of a call

A response is redacted once, before it is parsed; a `ProviderError` of the
parser is redacted again. Two routes pass redaction by: tool arguments that are
JSON text in a string, and a body that becomes JSON only when it is redacted.
-/

namespace NeuralPlus

open Fallible JsonValue

/-! ## Results without secrets -/

def TextFree (secrets : List String) (v : JsonValue) : Prop := ∀ t, Text t v → Free secrets t

def NativeFree (secrets : List String) (metadata : JsonValue) : Prop :=
  TextFree secrets metadata ∨ ∃ function, TextFree secrets function ∧
    metadata = .ofMembers [("legacy_function_call", .boolean true), ("function_call", function)]

def Exc.FreeOf (secrets : List String) (e : Exc) : Prop :=
  ∀ message provider status code requestId, e = .provider message provider status code requestId →
    Free secrets message ∧ Free secrets code ∧ Free secrets requestId

structure AIResponse.FreeOf (secrets : List String) (key : String) (r : AIResponse) : Prop where
  requestId : Free secrets r.providerRequestId
  model : Free secrets r.providerModel
  contents : ∀ c ∈ r.message.contents, Free secrets c.value
  arguments : ∀ call ∈ r.message.toolCalls, TextFree secrets call.arguments
  response : TextFree secrets (r.providerMetadata.member "response")
  message : TextFree secrets (r.message.providerMetadata.member key)
  native : ∀ call ∈ r.message.toolCalls, NativeFree secrets call.providerMetadata

structure Withholds (secrets : List String) (key : String) (result : Except Exc AIResponse) : Prop where
  returned : ∀ r, result = .ok r → r.FreeOf secrets key
  thrown : Throws (Exc.FreeOf secrets) result

section
variable {secrets : List String} {json : JsonText} {key : String}

theorem withholds_ok {r : AIResponse} : Withholds secrets key (.ok r) ↔ r.FreeOf secrets key := by
  constructor
  · intro h
    exact h.returned r rfl
  · intro h
    refine ⟨?_, throws_ok r⟩
    intro r' hr
    rwa [← Except.ok.inj hr]

theorem withholds_error {e : Exc} : Withholds secrets key (.error e) ↔ e.FreeOf secrets := by
  constructor
  · intro h
    exact h.thrown e rfl
  · intro h
    refine ⟨?_, throws_error h⟩
    intro r hr
    cases hr

theorem free_empty (h : Apart secrets) : Free secrets "" := by
  intro s hs hempty
  apply (h s hs).2.2
  rw [List.infix_nil.mp hempty]
  exact List.nil_infix

theorem freeOf_redactProviderError (h : Apart secrets) (e : Exc) : (redactProviderError secrets e).FreeOf secrets := by
  intro message provider status code requestId he
  cases e with
  | provider message' provider' status' code' requestId' =>
    cases he
    exact ⟨free_redactSensitiveValues h message', free_redactSensitiveValues h code',
      free_redactSensitiveValues h requestId'⟩
  | _ => cases he

theorem textFree_of_draws {part body : JsonValue} (h : TextFree secrets body) (hd : Draws part body) :
    TextFree secrets part :=
  fun t ht => h t (hd t ht)

theorem free_of_textOf {body : JsonValue} {s : String} (hsecrets : Apart secrets) (h : TextFree secrets body)
    (hs : TextOf body s) : Free secrets s := by
  rcases hs with rfl | hs
  · exact free_empty hsecrets
  · exact h s hs

/-- The second parse of a text finds no secret. -/
def DecodesFree (secrets : List String) (json : JsonText) (raw : String) : Prop :=
  ∀ v, json.parse raw = some v → TextFree secrets v

theorem decodesFree_iff {raw : String} :
    DecodesFree secrets json raw ↔ TextFree secrets (parseToolArguments json raw).1 := by
  unfold DecodesFree parseToolArguments
  cases hp : json.parse raw with
  | none =>
    constructor
    · intro _ t ht
      exact absurd ht (not_text_emptyObject t)
    · intro _ v hv
      cases hv
  | some v =>
    constructor
    · intro h
      exact h v rfl
    · intro h v' hv'
      rwa [← Option.some.inj hv']

/-- **An accepted response withholds the secrets** when its body does, and its arguments still do once decoded. -/
theorem Taken.freeOf_iff {headers : List HttpHeader} {body : JsonValue} {raws : List String} {r : AIResponse}
    (ht : Taken json headers key body raws r) (hsecrets : Apart secrets)
    (hheaders : ∀ header ∈ headers, Free secrets header.value) :
    r.FreeOf secrets key ↔ TextFree secrets body ∧ ∀ raw ∈ raws, DecodesFree secrets json raw := by
  constructor
  · intro h
    refine ⟨?_, ?_⟩
    · rw [← ht.response]
      exact h.response
    · intro raw hraw
      obtain ⟨call, hcall, harguments⟩ := ht.drawn.reached raw hraw
      rw [decodesFree_iff, ← harguments]
      exact h.arguments call hcall
  · rintro ⟨hbody, hraws⟩
    constructor
    · rcases ht.requestId with hid | ⟨header, hheader, hid⟩
      · exact free_of_textOf hsecrets hbody hid
      · rw [hid]
        exact hheaders header hheader
    · exact free_of_textOf hsecrets hbody ht.model
    · intro c hc
      exact free_of_textOf hsecrets hbody (ht.drawn.contents c hc)
    · intro call hcall
      rcases ht.drawn.decoded call hcall with hd | ⟨raw, hraw, harguments⟩
      · exact textFree_of_draws hbody hd
      · rw [harguments, ← decodesFree_iff]
        exact hraws raw hraw
    · rw [ht.response]
      exact hbody
    · exact textFree_of_draws hbody ht.message
    · intro call hcall
      rcases ht.drawn.native call hcall with hd | ⟨function, hd, hmetadata⟩
      · exact .inl (textFree_of_draws hbody hd)
      · exact .inr ⟨function, textFree_of_draws hbody hd, hmetadata⟩

/-! ## The redacted response -/

/-- What redaction relies on: the dump of a redacted body is read as that body. -/
def JsonText.Rereads (json : JsonText) (secrets : List String) (text : String) : Prop :=
  ∀ v, json.parse text = some v → json.parse (json.dump (redactJsonStrings secrets v)) = some (redactJsonStrings secrets v)

theorem rereads_of_parse {text : String} {v : JsonValue} (hv : json.parse text = some v)
    (h : json.parse (json.dump (redactJsonStrings secrets v)) = some (redactJsonStrings secrets v)) :
    json.Rereads secrets text := by
  intro v' hv'
  rw [hv, Option.some.injEq] at hv'
  rwa [← hv']

theorem rereads_of_answer {answer : HttpResponse} (h : json.Rereads secrets answer.body) (_ : HttpRequest)
    (response : HttpResponse) (hresponse : (.ok answer : Except Exc HttpResponse) = .ok response) :
    json.Rereads secrets response.body := by
  rwa [← Except.ok.inj hresponse]

theorem free_redacted_headers (hsecrets : Apart secrets) (response : HttpResponse) :
    ∀ header ∈ (redactSensitiveResponse json secrets response).headers, Free secrets header.value := by
  unfold redactSensitiveResponse
  by_cases hnil : secrets = []
  · rw [if_pos hnil, hnil]
    exact fun _ _ s hs => absurd hs List.not_mem_nil
  · rw [if_neg hnil]
    intro header hheader
    obtain ⟨original, _, rfl⟩ := List.mem_map.mp hheader
    exact free_redactSensitiveValues hsecrets original.value

/-- What was JSON before redaction is JSON without secrets after it. -/
theorem textFree_redacted (hsecrets : Apart secrets) {response : HttpResponse} {v body : JsonValue}
    (hjson : json.Rereads secrets response.body) (hv : json.parse response.body = some v)
    (hbody : json.parse (redactSensitiveResponse json secrets response).body = some body) : TextFree secrets body := by
  unfold redactSensitiveResponse at hbody
  by_cases hnil : secrets = []
  · rw [hnil]
    exact fun _ _ s hs => absurd hs List.not_mem_nil
  · rw [if_neg hnil] at hbody
    dsimp only at hbody
    rw [hv] at hbody
    have hredacted : redactJsonStrings secrets v = body := Option.some.inj ((hjson v hv).symm.trans hbody)
    rw [← hredacted]
    exact free_of_text hsecrets v

end

/-! ## The adapters -/

namespace Adapter

def nativeKey : Adapter → String
  | openai _ => "output"
  | anthropic _ => "content"
  | gemini _ => "content"
  | compatible _ => "message"

def argumentTexts : Adapter → JsonValue → List String
  | openai _ => OpenAIClient.argumentTexts
  | anthropic _ => fun _ => []
  | gemini _ => fun _ => []
  | compatible _ => CompatibleClient.argumentTexts

section
variable (json : JsonText) (adapter : Adapter) (request : AIRequest)

theorem parseResponse_taken {response : HttpResponse} {r : AIResponse}
    (h : adapter.parseResponse json request response = .ok r) :
    ∃ body, json.parse response.body = some body ∧
      Taken json response.headers adapter.nativeKey body (adapter.argumentTexts body) r := by
  cases adapter with
  | openai impl => exact OpenAIClient.parseResponse_taken h
  | anthropic impl => exact AnthropicClient.parseResponse_taken h
  | gemini impl => exact GeminiClient.parseResponse_taken h
  | compatible impl => exact CompatibleClient.parseResponse_taken h

/-- No secret gets past the redaction of a response that is accepted: none is escaped in a body
that was no JSON before, and none in arguments that are decoded again. -/
def Unexposed (response : HttpResponse) : Prop :=
  Returns (adapter.parseResponse json request (redactSensitiveResponse json adapter.secrets response)) →
    ∀ body, json.parse (redactSensitiveResponse json adapter.secrets response).body = some body →
      (json.parse response.body = none → TextFree adapter.secrets body) ∧
        ∀ raw ∈ adapter.argumentTexts body, DecodesFree adapter.secrets json raw

variable {json adapter request} {send : HttpRequest → Except Exc HttpResponse}

theorem withholds_exchange_iff (hsecrets : Apart adapter.secrets) {sent : HttpRequest} {response : HttpResponse}
    (hjson : json.Rereads adapter.secrets response.body) (hsent : send sent = .ok response) :
    Withholds adapter.secrets adapter.nativeKey
        (exchange json send adapter.secrets sent (adapter.parseResponse json request)) ↔
      adapter.Unexposed json request response := by
  rw [exchange_sent hsent]
  unfold Unexposed
  cases hp : adapter.parseResponse json request (redactSensitiveResponse json adapter.secrets response) with
  | error e =>
    constructor
    · intro _ hreturns
      exact absurd hreturns (not_returns_error e)
    · intro _
      exact withholds_error.mpr (freeOf_redactProviderError hsecrets e)
  | ok r =>
    obtain ⟨body, hbody, htaken⟩ := parseResponse_taken json adapter request hp
    have hiff := htaken.freeOf_iff hsecrets (free_redacted_headers hsecrets response)
    show Withholds adapter.secrets adapter.nativeKey (.ok r) ↔ _
    rw [withholds_ok, hiff]
    constructor
    · rintro ⟨hfree, hraws⟩ _ body' hbody'
      rw [hbody, Option.some.injEq] at hbody'
      subst hbody'
      exact ⟨fun _ => hfree, hraws⟩
    · intro h
      obtain ⟨hmalformed, hraws⟩ := h (returns_ok r) body hbody
      refine ⟨?_, hraws⟩
      cases hv : json.parse response.body with
      | none => exact hmalformed hv
      | some v => exact textFree_redacted hsecrets hjson hv hbody

theorem freeOf_refused_iff {e : Exc} (h : adapter.makeRequest json request = .error e) :
    e.FreeOf adapter.secrets ↔ (Refusal adapter.provider e → e.FreeOf adapter.secrets) := by
  constructor
  · exact fun hfree _ => hfree
  · intro hrefusal
    rcases makeRequest_throws json adapter request e h with ⟨message, rfl⟩ | hown
    · intro _ _ _ _ _ he
      cases he
    · exact hrefusal hown

/-- **Redaction of a whole call.** The result holds a secret exactly where the adapter's own refusal
of the request does, or where the response gets one past its redaction. -/
theorem generateOnce_withholds_iff (hsecrets : Apart adapter.secrets)
    (hjson : ∀ sent response, send sent = .ok response → json.Rereads adapter.secrets response.body) :
    Withholds adapter.secrets adapter.nativeKey (adapter.generateOnce json send request) ↔
      (∀ e, Refusal adapter.provider e → adapter.makeRequest json request = .error e → e.FreeOf adapter.secrets) ∧
        ∀ body response, adapter.makeRequest json request = .ok body →
          send (adapter.httpRequest json body) = .ok response → adapter.Unexposed json request response := by
  rw [generateOnce_eq]
  cases hmake : adapter.makeRequest json request with
  | error e =>
    rw [error_bind, withholds_error, freeOf_refused_iff hmake]
    constructor
    · intro h
      constructor
      · intro e' hrefusal he'
        rw [← Except.error.inj he'] at hrefusal ⊢
        exact h hrefusal
      · intro _ _ hbody
        cases hbody
    · rintro ⟨h, _⟩ hrefusal
      exact h e hrefusal rfl
  | ok body =>
    rw [ok_bind]
    cases hsent : send (adapter.httpRequest json body) with
    | error e =>
      rw [exchange_error hsent, withholds_error]
      constructor
      · intro _
        constructor
        · intro _ _ he
          cases he
        · intro body' response hbody' hresponse
          rw [← Except.ok.inj hbody', hsent] at hresponse
          cases hresponse
      · intro _
        exact freeOf_redactProviderError hsecrets e
    | ok response =>
      -- the service answered: all depends on what its response says
      rw [withholds_exchange_iff hsecrets (hjson _ response hsent) hsent]
      constructor
      · intro h
        constructor
        · intro _ _ he
          cases he
        · intro body' response' hbody' hresponse'
          rw [← Except.ok.inj hbody', hsent] at hresponse'
          rwa [← Except.ok.inj hresponse']
      · rintro ⟨_, h⟩
        exact h body response rfl hsent

end

end Adapter

/-! ## A key echoed in tool arguments -/

def JsonText.ofTable (table : List (String × JsonValue)) : JsonText where
  parse text := (table.find? fun entry => entry.1 = text).map Prod.snd
  dump v := ((table.find? fun entry => entry.2 = v).map Prod.fst).getD ""

def keyedClient : Adapter := .openai {
  config := { model := { provider := .openai, id := "gpt" } }
  endpoint := "https://api.openai.com/v1/responses"
  apiKey := "secret"
  valid := by decide }

def emptyRequest : AIRequest where
  sessionId := "session"
  runId := "run"
  systemMessage := none
  messages := []
  tools := []
  options := {}

def callText (model quoted : String) : String :=
  "\x7b\"model\":\"" ++ model ++ "\",\"output\":[\x7b\"arguments\":\"" ++ quoted ++
    "\",\"call_id\":\"call\",\"name\":\"echo\",\"type\":\"function_call\"\x7d]\x7d"

def callBody (model arguments : String) : JsonValue :=
  .object [("model", .string model), ("output", .array [.object [("arguments", .string arguments),
    ("call_id", .string "call"), ("name", .string "echo"), ("type", .string "function_call")]])]

def callJson (model quoted arguments key : String) : JsonText := .ofTable
  [(callText model quoted, callBody model arguments),
   (callText "[REDACTED]" quoted, callBody "[REDACTED]" arguments),
   (arguments, .object [("key", .string key)]),
   ("\x7b\"background\":false,\"input\":[],\"model\":\"gpt\",\"stream\":false\x7d",
     .object [("background", .boolean false), ("input", .array []), ("model", .string "gpt"), ("stream", .boolean false)])]

def echoJson : JsonText := callJson "secret" "\x7b\\\"key\\\":\\\"city\\\"\x7d" "\x7b\"key\":\"city\"\x7d" "city"

def echoText : String := callText "secret" "\x7b\\\"key\\\":\\\"city\\\"\x7d"

/-- The key comes back as the model's name. -/
theorem generateOnce_withholds_echo :
    Withholds keyedClient.secrets keyedClient.nativeKey
      (keyedClient.generateOnce echoJson (fun _ => .ok ⟨200, [], echoText⟩) emptyRequest) := by
  have hsecrets : Apart keyedClient.secrets := by decide
  have hparse : echoJson.parse echoText = some (callBody "secret" "\x7b\"key\":\"city\"\x7d") := by decide +kernel
  have hreread : echoJson.Rereads keyedClient.secrets echoText := rereads_of_parse hparse (by decide +kernel)
  have hfree : TextFree keyedClient.secrets (.object [("key", .string "city")]) := by
    intro t ht
    rcases text_object_singleton.mp ht with rfl | rfl
    · decide
    · decide
  refine (Adapter.generateOnce_withholds_iff hsecrets (rereads_of_answer hreread)).mpr ⟨?_, ?_⟩
  · intro e _ he
    have hmade : Returns (keyedClient.makeRequest echoJson emptyRequest) := by decide +kernel
    rw [he] at hmade
    exact absurd hmade (not_returns_error e)
  · intro body response _ hresponse
    rw [← Except.ok.inj hresponse]
    intro _ redacted hredacted
    have hbody : echoJson.parse (redactSensitiveResponse echoJson keyedClient.secrets ⟨200, [], echoText⟩).body =
        some (callBody "[REDACTED]" "\x7b\"key\":\"city\"\x7d") := by decide +kernel
    rw [hbody, Option.some.injEq] at hredacted
    subst hredacted
    constructor
    · intro hnone
      rw [hparse] at hnone
      cases hnone
    · intro raw hraw v hv
      have htexts : keyedClient.argumentTexts (callBody "[REDACTED]" "\x7b\"key\":\"city\"\x7d") =
          ["\x7b\"key\":\"city\"\x7d"] := by decide +kernel
      have hdecoded : echoJson.parse "\x7b\"key\":\"city\"\x7d" = some (.object [("key", .string "city")]) := by
        decide +kernel
      rw [htexts, List.mem_singleton] at hraw
      rw [hraw, hdecoded, Option.some.injEq] at hv
      rwa [← hv]

def escapedJson : JsonText :=
  callJson "gpt" "\x7b\\\"key\\\":\\\"s\\\\u0065cret\\\"\x7d" "\x7b\"key\":\"s\\u0065cret\"\x7d" "secret"

def escapedText : String := callText "gpt" "\x7b\\\"key\\\":\\\"s\\\\u0065cret\\\"\x7d"

theorem escaped_key_returned :
    ¬ ∀ (json : JsonText) (send : HttpRequest → Except Exc HttpResponse) (adapter : Adapter) (request : AIRequest),
      Apart adapter.secrets →
        (∀ sent response, send sent = .ok response → json.Rereads adapter.secrets response.body) →
          Withholds adapter.secrets adapter.nativeKey (adapter.generateOnce json send request) := by
  intro h
  let send (_ : HttpRequest) : Except Exc HttpResponse := .ok ⟨200, [], escapedText⟩
  have hsecrets : Apart keyedClient.secrets := by decide
  have hparse : escapedJson.parse escapedText = some (callBody "gpt" "\x7b\"key\":\"s\\u0065cret\"\x7d") := by
    decide +kernel
  have hreread : escapedJson.Rereads keyedClient.secrets escapedText := rereads_of_parse hparse (by decide +kernel)
  have hwithholds := h escapedJson send keyedClient emptyRequest hsecrets (rereads_of_answer hreread)
  have harguments : (keyedClient.generateOnce escapedJson send emptyRequest).toOption.map
      (fun r => r.message.toolCalls.map ToolCall.arguments) = some [.object [("key", .string "secret")]] := by
    decide +kernel
  cases hr : keyedClient.generateOnce escapedJson send emptyRequest with
  | error e =>
    rw [hr] at harguments
    cases harguments
  | ok r =>
    rw [hr] at harguments
    have hcalls : r.message.toolCalls.map ToolCall.arguments = [.object [("key", .string "secret")]] :=
      Option.some.inj harguments
    obtain ⟨call, rest, hsplit, hcall, _⟩ := List.map_eq_cons_iff.mp hcalls
    have hfree := (hwithholds.returned r hr).arguments call (by rw [hsplit]; exact List.mem_cons_self ..)
    rw [hcall] at hfree
    have hoccurs := hfree "secret" (text_object_singleton.mpr (.inr rfl))
    exact absurd hoccurs (by decide)

end NeuralPlus
