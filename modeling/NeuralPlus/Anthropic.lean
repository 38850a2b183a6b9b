import NeuralPlus.Client
import NeuralPlus.Common

/-!
# The Anthropic Messages adapter

`providers/anthropic.cpp`: messages become turns of content blocks, adjacent
messages of one role share a turn, and the blocks of a response stay attached
to its message for replay.
-/

namespace NeuralPlus

open Fallible

structure AnthropicConfig where
  model : ModelDescriptor
  apiKey : Option String := none
  baseUrl : String := "https://api.anthropic.com"
  apiVersion : String := "2023-06-01"
  defaultMaxOutputTokens : SizeT := 1024
  extraHeaders : List HttpHeader := []

namespace AnthropicClient

/-! ## The history -/

def nativeContent (message : Message) : Option (List JsonValue) :=
  match nativeMember message "anthropic" "content" with
  | some (.array blocks) => some blocks
  | _ => none

def urlSource (content : Content) : JsonValue :=
  .ofMembers [("type", .string "url"), ("url", .string content.url)]

def base64Source (content : Content) (mediaType : String) : JsonValue :=
  .ofMembers [("type", .string "base64"), ("media_type", .string mediaType),
    ("data", .string (base64Encode content.bytes))]

def document (content : Content) (source : JsonValue) : JsonValue :=
  setIfSome (.ofMembers [("type", .string "document"), ("source", source)]) "title"
    (if content.filename = "" then none else some (.string content.filename))

def contentPart (content : Content) : Except Exc JsonValue :=
  match content.type, content.source with
  | .text, .value => .ok (.ofMembers [("type", .string "text"), ("text", .string content.value)])
  | .image, .url => .ok (.ofMembers [("type", .string "image"), ("source", urlSource content)])
  | .image, .bytes =>
    .ok (.ofMembers [("type", .string "image"), ("source", base64Source content content.mediaType)])
  | .file, .url => .ok (document content (urlSource content))
  | .file, source =>
    if source = .bytes ∧ content.mediaType = "application/pdf" then
      .ok (document content (base64Source content "application/pdf"))
    else
      .error (.provider "Anthropic file input supports document URLs and inline PDFs" .anthropic 0
        "unsupported_document" "")
  | .extension, .providerData =>
    if content.provider = "anthropic" then .ok content.providerData
    else .error (unsupportedContent .anthropic content)
  | _, _ => .error (unsupportedContent .anthropic content)

def blocks (message : Message) : Except Exc (List JsonValue) := message.contents.mapM contentPart

def appendTurn : List JsonValue → String → List JsonValue → List JsonValue := NeuralPlus.appendTurn "content"

def toolResultBlock (message : Message) (content : List JsonValue) : JsonValue :=
  setIfSome (.ofMembers [("type", .string "tool_result"), ("tool_use_id", .string message.toolCallId),
    ("content", .array content)]) "is_error" (if message.toolError then some (.boolean true) else none)

def toolUseBlock (call : ToolCall) : JsonValue :=
  .ofMembers [("type", .string "tool_use"), ("id", .string call.id), ("name", .string call.name),
    ("input", call.arguments)]

def appendHistory (messages : List JsonValue) (message : Message) : Except Exc (List JsonValue) :=
  match message.role with
  | .system => .ok messages
  | .assistant =>
    match nativeContent message with
    | some native => .ok (appendTurn messages "assistant" native)
    | none => do return appendTurn messages "assistant" ((← blocks message) ++ message.toolCalls.map toolUseBlock)
  | .tool => do return appendTurn messages "user" [toolResultBlock message (← blocks message)]
  | .user => do return appendTurn messages "user" (← blocks message)

def makeRequest (config : AnthropicConfig) (request : AIRequest) : Except Exc JsonValue := do
  let body ← mergedProviderOptions config.model.providerOptions request.options.providerOptions
  let body := ((body.set "model" (.string config.model.id)).set "stream" (.boolean false)).set "max_tokens"
    (.unsigned (request.options.maxOutputTokens.getD config.defaultMaxOutputTokens))
  let messages ← request.messages.foldlM appendHistory []
  let body := body.set "messages" (.array messages)
  let system := systemInstruction request
  let body := if system = "" then body else body.set "system" (.string system)
  let body ← withTools "Anthropic" body (request.tools.map (declaration "input_schema"))
  return setIfSome body "temperature" (request.options.temperature.map .float)

/-! ## The response -/

def httpError (json : JsonText) (response : HttpResponse) (requestId : String) : Exc :=
  let error := errorObject json response
  let parsed := (json.parse response.body).getD .null
  providerError .anthropic response (error.stringField "message") (error.stringField "type")
    (if requestId = "" then parsed.stringField "request_id" else requestId)

def finishReason (reason : String) (hasToolCalls : Bool) : FinishReason :=
  if hasToolCalls ∨ reason = "tool_use" then .toolCalls
  else if reason = "end_turn" ∨ reason = "stop_sequence" then .stop
  else if reason = "max_tokens" ∨ reason = "model_context_window_exceeded" then .length
  else if reason = "refusal" then .refusal
  else .unknown

section
variable (json : JsonText) (malformed : String → Exc)

def parseToolUse (parsed : Parsed) (block : JsonValue) : Except Exc Parsed :=
  let invalid := malformed "Anthropic tool_use content requires non-empty string id and name and object input"
  match block.find? "id", block.find? "name", block.find? "input" with
  | some (.string id), some (.string name), some (.object input) => do
    throwIf (id = "" ∨ name = "") invalid
    return parsed.call {
      id, name, arguments := .object input, rawArguments := json.dump (.object input), argumentsValid := true
      providerMetadata := block }
  | _, _, _ => .error invalid

def parseBlock (parsed : Parsed) (block : JsonValue) : Except Exc Parsed := do
  throwIf (block.isObject = false) (malformed "Anthropic response content blocks must be objects")
  checkMember block "type" JsonValue.isString (malformed "Anthropic response content block type must be a string")
  let type := block.stringField "type"
  if type = "text" then
    return parsed.content (.text (← requireString block "text"
      (malformed "Anthropic text content requires string text")))
  else if type = "tool_use" then parseToolUse json malformed parsed block
  else return parsed.content (← Content.extension "anthropic" block)

end

def addInput (overflow : Exc) (total : SizeT) : Option SizeT → Except Exc SizeT
  | none => .ok total
  | some count => if count > SizeT.max - total then .error overflow else .ok (total + count)

/-- Anthropic counts cached input apart from the other input. -/
def totalInput (overflow : Exc) (usage : JsonValue) : Except Exc (Option SizeT) :=
  match usage.sizeField "input_tokens" with
  | none => .ok none
  | some uncached => do
    let total ← addInput overflow uncached (usage.sizeField "cache_creation_input_tokens")
    return some (← addInput overflow total (usage.sizeField "cache_read_input_tokens"))

def parseUsage (overflow : Exc) (usage : JsonValue) : Except Exc TokenUsage := do
  let inputTokens ← totalInput overflow usage
  let outputTokens := usage.sizeField "output_tokens"
  return {
    inputTokens, outputTokens
    totalTokens :=
      match inputTokens, outputTokens with
      | some input, some output => if output ≤ SizeT.max - input then some (input + output) else none
      | _, _ => none
    cachedInputTokens := usage.sizeField "cache_read_input_tokens"
    cacheCreationInputTokens := usage.sizeField "cache_creation_input_tokens"
    reasoningTokens := (usage.member "output_tokens_details").sizeField "thinking_tokens" }

def parseResponse (json : JsonText) (response : HttpResponse) : Except Exc AIResponse := do
  let (body, requestId) ← responseBody json response .anthropic "request-id" "id" (httpError json response)
  let malformed := malformedResponse .anthropic response requestId
  let content ← requireArray body "content" (malformed "Anthropic response is missing the content array")
  let parsed ← content.foldlM (parseBlock json malformed) {}
  let stopReason := body.stringField "stop_reason"
  let usage ← parseUsage (.provider "Anthropic token usage overflow" .anthropic response.status "usage_overflow"
    requestId) (body.member "usage")
  return {
    message := (Message.assistant parsed.contents parsed.calls).setProviderMetadata
      (nativeMetadata "anthropic" "content" (.array content))
    finishReason := finishReason stopReason (!parsed.calls.isEmpty)
    usage
    providerModel := body.stringField "model"
    providerRequestId := requestId
    requiresContinuation := stopReason = "pause_turn"
    providerMetadata := nativeMetadata "anthropic" "response" body }

/-! ## The client -/

structure Impl where
  config : AnthropicConfig
  endpoint : String
  apiKey : String
  valid : validateProvider config.model .anthropic = .ok ()

def Impl.make (getenv : String → Option String) (config : AnthropicConfig) : Except Exc Impl := do
  let endpoint ← joinUrl config.baseUrl "/v1/messages"
  let apiKey ← resolveRequiredCredential getenv config.apiKey ["ANTHROPIC_API_KEY"] "Anthropic"
  match hv : validateProvider config.model .anthropic with
  | .error e => .error e
  | .ok () =>
    throwIf (config.apiVersion = "") (.configuration "Anthropic API version cannot be empty")
    throwIf (config.defaultMaxOutputTokens = 0)
      (.configuration "Anthropic default_max_output_tokens must be greater than zero")
    return { config := { config with apiKey := none }, endpoint, apiKey, valid := hv }

theorem Impl.make_model {getenv : String → Option String} {config : AnthropicConfig} {impl : Impl}
    (h : Impl.make getenv config = .ok impl) : impl.config.model = config.model := by
  unfold Impl.make at h
  simp only [bind_eq_ok] at h
  obtain ⟨_, _, _, _, h⟩ := h
  split at h
  · cases h
  · simp only [bind_eq_ok] at h
    obtain ⟨_, _, _, _, h⟩ := h
    cases h
    rfl

def Impl.headers (impl : Impl) : List HttpHeader :=
  applyExtraHeaders
    [{ name := "x-api-key", value := impl.apiKey },
     { name := "anthropic-version", value := impl.config.apiVersion },
     { name := "Content-Type", value := "application/json" }] impl.config.extraHeaders

def Impl.generate (json : JsonText) (send : HttpRequest → Except Exc HttpResponse) (impl : Impl)
    (request : AIRequest) : Except Exc AIResponse := do
  let body ← makeRequest impl.config request
  exchange json send (collectSensitiveValues impl.headers [impl.apiKey])
    { url := impl.endpoint, headers := impl.headers, body := json.dump body } (parseResponse json)

end AnthropicClient

end NeuralPlus
