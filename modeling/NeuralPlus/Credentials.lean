import NeuralPlus.ExposureSound
import NeuralPlus.MixedSessions

/-!
# Other credentials

Two clients that differ in their key and extra headers only. A call on one goes
as on the other where the services' answers read alike once each client has
redacted its own credentials in them: nothing else reads a credential.
-/

namespace NeuralPlus

open Fallible JsonValue

/-! ## What a parser reads -/

structure HttpResponse.ReadAlike (json : JsonText) (response response' : HttpResponse) : Prop where
  status : response'.status = response.status
  headers : response'.headers = response.headers
  body : json.parse response'.body = json.parse response.body

theorem Adapter.parseResponse_congr {json : JsonText} {response response' : HttpResponse}
    (h : response.ReadAlike json response') (adapter : Adapter) (request : AIRequest) :
    adapter.parseResponse json request response' = adapter.parseResponse json request response := by
  obtain ⟨status, headers, text⟩ := response
  obtain ⟨status', headers', text'⟩ := response'
  obtain ⟨hstatus, hheaders, hbody⟩ := h
  dsimp only at hstatus hheaders hbody
  subst hstatus hheaders
  cases adapter with
  | openai impl =>
    unfold parseResponse OpenAIClient.parseResponse OpenAIClient.httpError responseBody parseResponseJson errorObject
      providerError malformedResponse responseRequestId HttpResponse.header
    simp only [hbody]
  | anthropic impl =>
    unfold parseResponse AnthropicClient.parseResponse AnthropicClient.httpError responseBody parseResponseJson
      errorObject providerError malformedResponse responseRequestId HttpResponse.header
    simp only [hbody]
  | gemini impl =>
    unfold parseResponse GeminiClient.parseResponse GeminiClient.httpError responseBody parseResponseJson errorObject
      providerError malformedResponse responseRequestId HttpResponse.header
    simp only [hbody]
  | compatible impl =>
    unfold parseResponse CompatibleClient.parseResponse CompatibleClient.httpError responseBody parseResponseJson
      errorObject providerError malformedResponse responseRequestId HttpResponse.header
    simp only [hbody]

theorem HttpResponse.ReadAlike.symm {json : JsonText} {response response' : HttpResponse}
    (h : response.ReadAlike json response') : response'.ReadAlike json response :=
  ⟨h.status.symm, h.headers.symm, h.body.symm⟩

theorem HttpResponse.ReadAlike.trans {json : JsonText} {a b c : HttpResponse} (h : a.ReadAlike json b)
    (h' : b.ReadAlike json c) : a.ReadAlike json c :=
  ⟨h'.status.trans h.status, h'.headers.trans h.headers, h'.body.trans h.body⟩

theorem redactSensitiveResponse_status (json : JsonText) (secrets : List String) (response : HttpResponse) :
    (redactSensitiveResponse json secrets response).status = response.status := by
  unfold redactSensitiveResponse
  split <;> rfl

theorem readAlike_redacted {secrets : List String} {json : JsonText} {response : HttpResponse}
    (hreads : json.Reads response.body) (hfree : SecretFree secrets json response) :
    response.ReadAlike json (redactSensitiveResponse json secrets response) := by
  obtain ⟨hheaders, hbody⟩ := redactSensitiveResponse_of_free hreads hfree
  exact ⟨redactSensitiveResponse_status json secrets response, hheaders, hbody⟩

theorem Exc.FreeOf.redactProviderError {secrets : List String} {e : Exc} (h : e.FreeOf secrets) :
    redactProviderError secrets e = e := by
  cases e with
  | provider message provider status code requestId =>
    obtain ⟨hmessage, hcode, hrequestId⟩ := h _ _ _ _ _ rfl
    show Exc.provider _ _ _ _ _ = _
    rw [redactSensitiveValues_of_free hmessage, redactSensitiveValues_of_free hcode,
      redactSensitiveValues_of_free hrequestId]
  | _ => rfl

namespace Adapter

/-- Two adapters of one configuration, but for the key and the extra headers. -/
inductive SameService : Adapter → Adapter → Prop
  | openai {impl impl' : OpenAIClient.Impl}
      (config : impl'.config = { impl.config with extraHeaders := impl'.config.extraHeaders }) :
      SameService (.openai impl) (.openai impl')
  | anthropic {impl impl' : AnthropicClient.Impl}
      (config : impl'.config = { impl.config with extraHeaders := impl'.config.extraHeaders }) :
      SameService (.anthropic impl) (.anthropic impl')
  | gemini {impl impl' : GeminiClient.Impl}
      (config : impl'.config = { impl.config with extraHeaders := impl'.config.extraHeaders }) :
      SameService (.gemini impl) (.gemini impl')
  | compatible {impl impl' : CompatibleClient.Impl}
      (config : impl'.config = { impl.config with extraHeaders := impl'.config.extraHeaders }) :
      SameService (.compatible impl) (.compatible impl')

section
variable {json : JsonText} {adapter adapter' : Adapter}

theorem SameService.makeRequest (h : adapter.SameService adapter') (request : AIRequest) :
    adapter'.makeRequest json request = adapter.makeRequest json request := by
  cases h with
  | @openai impl impl' config =>
    show OpenAIClient.makeRequest impl'.config request = _
    rw [config]
    rfl
  | @anthropic impl impl' config =>
    show AnthropicClient.makeRequest impl'.config request = _
    rw [config]
    rfl
  | @gemini impl impl' config =>
    show GeminiClient.makeRequest json impl'.config request = _
    rw [config]
    rfl
  | @compatible impl impl' config =>
    show CompatibleClient.makeRequest impl'.config request = _
    rw [config]
    rfl

theorem SameService.parseResponse (h : adapter.SameService adapter') (request : AIRequest) (response : HttpResponse) :
    adapter'.parseResponse json request response = adapter.parseResponse json request response := by
  cases h <;> rfl

/-- Redacted, the answers to two adapters read alike, and the parser's errors tell neither's credentials. -/
inductive AnsweredAlike (json : JsonText) (adapter adapter' : Adapter) :
    Except Exc HttpResponse → Except Exc HttpResponse → Prop
  | failed {e e' : Exc} (h : redactProviderError adapter'.secrets e' = redactProviderError adapter.secrets e) :
      AnsweredAlike json adapter adapter' (.error e) (.error e')
  | answered {response response' : HttpResponse}
      (read : (redactSensitiveResponse json adapter.secrets response).ReadAlike json
        (redactSensitiveResponse json adapter'.secrets response'))
      (told : ∀ request, Throws (fun e => e.FreeOf adapter.secrets ∧ e.FreeOf adapter'.secrets)
        (adapter.parseResponse json request (redactSensitiveResponse json adapter.secrets response))) :
      AnsweredAlike json adapter adapter' (.ok response) (.ok response')

theorem AnsweredAlike.exchange (hservice : adapter.SameService adapter') (request : AIRequest)
    {send send' : HttpRequest → Except Exc HttpResponse} {sent sent' : HttpRequest}
    (h : AnsweredAlike json adapter adapter' (send sent) (send' sent')) :
    exchange json send' adapter'.secrets sent' (adapter'.parseResponse json request) =
      exchange json send adapter.secrets sent (adapter.parseResponse json request) := by
  generalize hanswer : send sent = answer at h
  generalize hanswer' : send' sent' = answer' at h
  cases h with
  | failed h => rw [exchange_error hanswer, exchange_error hanswer', h]
  | answered read told =>
    rw [exchange_sent hanswer, exchange_sent hanswer', hservice.parseResponse, parseResponse_congr read]
    cases hp : adapter.parseResponse json request _ with
    | ok r => rfl
    | error e =>
      obtain ⟨hfree, hfree'⟩ := told request e hp
      exact congrArg Except.error (hfree'.redactProviderError.trans hfree.redactProviderError.symm)

/-- An answer that quotes no credential is the same to both. -/
theorem AnsweredAlike.of_free {answer : Except Exc HttpResponse}
    (hthrown : Throws (fun e => e.FreeOf adapter.secrets ∧ e.FreeOf adapter'.secrets) answer)
    (hreturned : ∀ response, answer = .ok response → json.Reads response.body ∧
      SecretFree adapter.secrets json response ∧ SecretFree adapter'.secrets json response ∧
      ∀ request, Throws (fun e => e.FreeOf adapter.secrets ∧ e.FreeOf adapter'.secrets)
        (adapter.parseResponse json request response)) :
    AnsweredAlike json adapter adapter' answer answer := by
  cases answer with
  | error e =>
    obtain ⟨hfree, hfree'⟩ := hthrown e rfl
    exact .failed (hfree'.redactProviderError.trans hfree.redactProviderError.symm)
  | ok response =>
    obtain ⟨hreads, hfree, hfree', htold⟩ := hreturned response rfl
    have hread := readAlike_redacted hreads hfree
    refine .answered (hread.symm.trans (readAlike_redacted hreads hfree')) ?_
    intro request
    rw [parseResponse_congr hread]
    exact htold request

end

end Adapter

/-! ## Calls under other credentials -/

namespace ClientCall

structure Rekeyed (json : JsonText) (c c' : ClientCall) : Prop where
  base : c'.client.base = c.client.base
  service : c.client.adapter.SameService c'.client.adapter
  call : c'.call = { c.call with send := c'.call.send }
  answers : ∀ round body, Adapter.AnsweredAlike json c.client.adapter c'.client.adapter
    (c.call.send round (c.client.adapter.httpRequest json body))
    (c'.call.send round (c'.client.adapter.httpRequest json body))

def results (json : JsonText) (session : Session) : List ClientCall → List GenerateResult
  | [] => []
  | c :: calls => c.run json session :: results json (c.run json session).session calls

variable {json : JsonText} {c c' : ClientCall}

theorem Rekeyed.generateOnce (h : c.Rekeyed json c') (round : Nat) (request : AIRequest) :
    c'.client.adapter.generateOnce json (c'.call.send round) request =
      c.client.adapter.generateOnce json (c.call.send round) request := by
  rw [Adapter.generateOnce_eq, Adapter.generateOnce_eq, h.service.makeRequest]
  congr 1
  funext body
  exact (h.answers round body).exchange h.service request

/-- **Step.** The call goes the same on every session. -/
theorem Rekeyed.run (h : c.Rekeyed json c') (session : Session) : c'.run json session = c.run json session := by
  have henv : c'.client.env json c'.call = c.client.env json c.call := by
    unfold BuiltInClient.env
    rw [h.call]
    congr 1
    funext round request
    exact h.generateOnce round request
  show c'.client.base.generate _ session c'.call.input c'.call.options = _
  rw [henv, h.base, h.call]
  rfl

/-- **A credential is read by nobody but its service.** The calls go the same under other keys and extra headers. -/
theorem credentials_irrelevant {calls calls' : List ClientCall} (h : List.Forall₂ (Rekeyed json) calls calls')
    (session : Session) : results json session calls' = results json session calls := by
  induction h generalizing session with
  | nil => rfl
  | @cons c c' calls calls' hc _ ih =>
    unfold results
    rw [hc.run session, ih]

end ClientCall

/-! ## A refused key -/

def refusalText (key : String) : String :=
  "\x7b\"error\":\x7b\"message\":\"Incorrect API key provided: " ++ key ++ "\"\x7d\x7d"

def refusalBody (key : String) : JsonValue :=
  .object [("error", .object [("message", .string ("Incorrect API key provided: " ++ key))])]

def refusalJson : JsonText := .ofTable
  [(refusalText "secret", refusalBody "secret"),
   (refusalText "token", refusalBody "token"),
   (refusalText "[REDACTED]", refusalBody "[REDACTED]"),
   ("\x7b\"background\":false,\"input\":[\x7b\"content\":[\x7b\"text\":\"hello\",\"type\":\"input_text\"\x7d]," ++
      "\"role\":\"user\"\x7d],\"model\":\"gpt\",\"stream\":false\x7d",
     .object [("background", .boolean false), ("input", .array [.object [("content", .array [.object [
       ("text", .string "hello"), ("type", .string "input_text")]]), ("role", .string "user")]]),
       ("model", .string "gpt"), ("stream", .boolean false)])]

def rotatedClient (key : String) : BuiltInClient :=
  { base := { AIClient.plainClient with model := { provider := .openai, id := "gpt" } }
    adapter := .openai {
      config := { model := { provider := .openai, id := "gpt" } }
      endpoint := "https://api.openai.com/v1/responses"
      apiKey := key
      valid := rfl }
    model_eq := rfl }

def unreachedCall (key : String) : ClientCall :=
  { client := rotatedClient key
    call := { AnthropicClient.sampleCall with send := fun _ _ => .error (.transport "connection reset") } }

def refusedCall (key : String) : ClientCall :=
  { client := rotatedClient key
    call := { AnthropicClient.sampleCall with send := fun _ _ => .ok ⟨401, [], refusalText key⟩ } }

theorem rotatedClient_sameService (key key' : String) :
    (rotatedClient key).adapter.SameService (rotatedClient key').adapter :=
  .openai rfl

theorem unreachedCall_rekeyed (key key' : String) : (unreachedCall key).Rekeyed refusalJson (unreachedCall key') where
  base := rfl
  service := rotatedClient_sameService key key'
  call := rfl
  answers := by
    intro _ _
    apply Adapter.AnsweredAlike.of_free
    · apply throws_error
      constructor
      all_goals intro _ _ _ _ _ he; cases he
    · intro _ hresponse
      cases hresponse

theorem refusedCall_rekeyed : (refusedCall "secret").Rekeyed refusalJson (refusedCall "token") where
  base := rfl
  service := rotatedClient_sameService "secret" "token"
  call := rfl
  answers := by
    intro _ _
    refine .answered ⟨?_, ?_, ?_⟩ ?_
    · rw [redactSensitiveResponse_status, redactSensitiveResponse_status]
    · decide +kernel
    · decide +kernel
    · intro _
      have hrefused : OpenAIClient.parseResponse refusalJson (redactSensitiveResponse refusalJson
          (refusedCall "secret").client.adapter.secrets ⟨401, [], refusalText "secret"⟩) =
            .error (.provider "Incorrect API key provided: [REDACTED]" .openai 401 "" "") := by
        decide +kernel
      show Throws _ (OpenAIClient.parseResponse refusalJson _)
      rw [hrefused]
      apply throws_error
      constructor
      all_goals intro _ _ _ _ _ he; cases he; decide

theorem ClientCall.credentials_irrelevant_rotated :
    ClientCall.results refusalJson { id := "session-1" } [unreachedCall "token", refusedCall "token"] =
      ClientCall.results refusalJson { id := "session-1" } [unreachedCall "secret", refusedCall "secret"] :=
  ClientCall.credentials_irrelevant (.cons (unreachedCall_rekeyed "secret" "token") (.cons refusedCall_rekeyed .nil))
    { id := "session-1" }

end NeuralPlus
