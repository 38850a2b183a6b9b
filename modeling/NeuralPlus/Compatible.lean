import NeuralPlus.Client
import NeuralPlus.Common

/-!
# The OpenAI-compatible Chat Completions adapter

`providers/openai_compatible.cpp`: one entry of the `messages` array for each
message, the native message of a response replayed with its audio reduced to
the id, and the legacy `function_call` beside `tool_calls`.
-/

namespace NeuralPlus

open Fallible

structure OpenAICompatibleConfig where
  model : ModelDescriptor
  apiKey : Option String := none
  apiKeyEnvironment : Option String := none
  baseUrl : String
  extraHeaders : List HttpHeader := []

namespace CompatibleClient

/-! ## The history -/

def nativeMessage (message : Message) : Option JsonValue :=
  match nativeMember message "openai_compatible" "message" with
  | some (.object native) => some (.object native)
  | _ => none

def imageUrl (content : Content) (url : String) : JsonValue :=
  .ofMembers [("type", .string "image_url"),
    ("image_url", setIfSome (.ofMembers [("url", .string url)]) "detail" (imageDetail content))]

def inputAudio (content : Content) (format : String) : JsonValue :=
  .ofMembers [("type", .string "input_audio"),
    ("input_audio", .ofMembers [("data", .string (base64Encode content.bytes)), ("format", .string format)])]

def inputFile (content : Content) : JsonValue :=
  .ofMembers [("type", .string "file"),
    ("file", setIfSome (.ofMembers [("file_data", .string (dataUrl content))]) "filename"
      (if content.filename = "" then none else some (.string content.filename)))]

def contentPart (content : Content) : Except Exc JsonValue :=
  match content.type, content.source with
  | .text, .value => .ok (.ofMembers [("type", .string "text"), ("text", .string content.value)])
  | .image, .url => .ok (imageUrl content content.url)
  | .image, .bytes => .ok (imageUrl content (dataUrl content))
  | .audio, .bytes => do return inputAudio content (← chatAudioFormat content .openaiCompatible)
  | .file, .bytes => .ok (inputFile content)
  | .extension, .providerData =>
    if content.provider = "openai_compatible" then .ok content.providerData
    else .error (unsupportedContent .openaiCompatible content)
  | _, _ => .error (unsupportedContent .openaiCompatible content)

def contentParts (message : Message) : Except Exc JsonValue := do
  return .array (← message.contents.mapM contentPart)

/-- A single text is sent as a string. -/
def messageContent (message : Message) : Except Exc JsonValue :=
  match message.contents with
  | [content] =>
    if content.type = .text ∧ content.source = .value then .ok (.string content.value) else contentParts message
  | _ => contentParts message

def toolText (content : Content) : Except Exc String :=
  if content.type ≠ .text ∨ content.source ≠ .value then .error (unsupportedContent .openaiCompatible content)
  else .ok content.value

def toolContent (message : Message) : Except Exc String := do
  return (← message.contents.mapM toolText).foldl (· ++ ·) ""

/-- Follow-up requests take the id of an audio answer and nothing else of it. -/
def replayMessage (native : JsonValue) : Except Exc JsonValue :=
  match native.find? "audio" with
  | some (.object audio) =>
    let id := (JsonValue.object audio).stringField "id"
    if id = "" then
      .error (.provider "OpenAI-compatible audio history is missing its id" .openaiCompatible 0
        "malformed_response" "")
    else .ok (native.set "audio" (.ofMembers [("id", .string id)]))
  | _ => .ok native

def isLegacy (message : Message) : Bool :=
  message.providerMetadata.find? "legacy_function_call" = some (.boolean true)

def toolEntry (message : Message) (content : String) : JsonValue :=
  if isLegacy message then
    .ofMembers [("role", .string "function"), ("name", .string message.toolName), ("content", .string content)]
  else
    .ofMembers [("role", .string "tool"), ("tool_call_id", .string message.toolCallId), ("content", .string content)]

def toolCallEntry (call : ToolCall) : JsonValue :=
  .ofMembers [("id", .string call.id), ("type", .string "function"),
    ("function", .ofMembers [("name", .string call.name), ("arguments", .string call.rawArguments)])]

def roleMessage (role : String) (message : Message) : Except Exc JsonValue := do
  return .ofMembers [("role", .string role), ("content", ← messageContent message)]

def withToolCalls (entry : JsonValue) (calls : List ToolCall) : JsonValue :=
  if calls = [] then entry else entry.set "tool_calls" (.array (calls.map toolCallEntry))

def appendHistory (messages : List JsonValue) (message : Message) : Except Exc (List JsonValue) :=
  match message.role with
  | .system => .ok messages
  | .assistant =>
    match nativeMessage message with
    | some native => do return messages ++ [← replayMessage native]
    | none => do return messages ++ [withToolCalls (← roleMessage "assistant" message) message.toolCalls]
  | .tool => do return messages ++ [toolEntry message (← toolContent message)]
  | .user => do return messages ++ [← roleMessage "user" message]

def systemEntry (system : String) : List JsonValue :=
  if system = "" then [] else [.ofMembers [("role", .string "system"), ("content", .string system)]]

def functionTool (tool : ToolSpec) : JsonValue :=
  .ofMembers [("type", .string "function"), ("function", declaration "parameters" tool)]

def makeRequest (config : OpenAICompatibleConfig) (request : AIRequest) : Except Exc JsonValue := do
  let body ← mergedProviderOptions config.model.providerOptions request.options.providerOptions
  let body := (body.set "model" (.string config.model.id)).set "stream" (.boolean false)
  let messages ← request.messages.foldlM appendHistory (systemEntry (systemInstruction request))
  let body := body.set "messages" (.array messages)
  let body ← withTools "OpenAI-compatible" body (request.tools.map functionTool)
  let body := setIfSome body "max_tokens" (request.options.maxOutputTokens.map .unsigned)
  return setIfSome body "temperature" (request.options.temperature.map .float)

def endpoint (baseUrl : String) : Except Exc String := do
  let normalized := String.ofList (baseUrl.toList.reverse.dropWhile (· = '/')).reverse
  throwIf (normalized = "") (.configuration "provider base URL cannot be empty")
  if hasSuffix "/chat/completions" normalized then return normalized else joinUrl normalized "/chat/completions"

/-! ## The response -/

def httpError (json : JsonText) (response : HttpResponse) (requestId : String) : Exc :=
  let error := errorObject json response
  let code := error.stringField "code"
  providerError .openaiCompatible response (error.stringField "message")
    (if code = "" then error.stringField "type" else code) requestId

def finishReason (reason : String) (hasToolCalls hasRefusal : Bool) : FinishReason :=
  if hasToolCalls ∨ reason = "tool_calls" ∨ reason = "function_call" then .toolCalls
  else if hasRefusal then .refusal
  else if reason = "stop" then .stop
  else if reason = "length" then .length
  else if reason = "content_filter" then .contentFilter
  else .unknown

section
variable (json : JsonText) (malformed : String → Exc)

def parseChoice (body : JsonValue) : Except Exc JsonValue :=
  match body.find? "choices" with
  | some (.array (.object choice :: _)) => .ok (.object choice)
  | _ => .error (malformed "OpenAI-compatible response is missing a valid choices array")

def parseMessage (choice : JsonValue) : Except Exc JsonValue :=
  match choice.find? "message" with
  | some (.object native) => .ok (.object native)
  | _ => .error (malformed "OpenAI-compatible response choice is missing the message object")

def parseImageUrl (part : JsonValue) : Except Exc Content :=
  match part.find? "image_url" with
  | some (.object image) => do
    let invalid := malformed "OpenAI-compatible image_url content requires a string URL"
    let url ← requireString (.object image) "url" invalid
    throwIf (url = "") invalid
    Content.imageUrl url
  | _ => .error (malformed "OpenAI-compatible image_url content requires an object")

def parsePart (part : JsonValue) : Except Exc Content := do
  throwIf (part.isObject = false) (malformed "OpenAI-compatible message content parts must be objects")
  checkMember part "type" JsonValue.isString (malformed "OpenAI-compatible content part type must be a string")
  let type := part.stringField "type"
  if type = "text" then
    return .text (← requireString part "text" (malformed "OpenAI-compatible text content requires string text"))
  else if type = "image_url" then parseImageUrl malformed part
  else Content.extension "openai_compatible" part

def parseContents (native : JsonValue) : Except Exc (List Content) :=
  match native.find? "content" with
  | none | some .null => .ok []
  | some (.string text) => .ok [.text text]
  | some (.array parts) => parts.mapM (parsePart malformed)
  | some _ => .error (malformed "OpenAI-compatible message content must be a string, array, or null")

def parseFunction (function : JsonValue) (invalid : Exc) : Except Exc (String × String) := do
  let name ← requireString function "name" invalid
  throwIf (name = "") invalid
  return (name, ← requireString function "arguments" invalid)

def makeCall (id name rawArguments : String) (providerMetadata : JsonValue) : ToolCall :=
  let (arguments, argumentsValid) := parseToolArguments json rawArguments
  { id, name, arguments, rawArguments, argumentsValid, providerMetadata }

def parseToolCall (unsupported : String → Exc) (native : JsonValue) : Except Exc ToolCall := do
  throwIf (native.isObject = false) (malformed "OpenAI-compatible tool_calls entries must be objects")
  let invalid := malformed
    "OpenAI-compatible tool call requires a non-empty string id, string type, and function object"
  match native.find? "id", native.find? "type", native.find? "function" with
  | some (.string id), some (.string type), some (.object function) =>
    throwIf (id = "") invalid
    throwIf (type ≠ "function") (unsupported type)
    let (name, rawArguments) ← parseFunction (.object function) (malformed
      "OpenAI-compatible function tool call requires a non-empty string name and string arguments")
    return makeCall json id name rawArguments native
  | _, _, _ => .error invalid

def parseToolCalls (unsupported : String → Exc) (native : JsonValue) : Except Exc (List ToolCall) :=
  match native.find? "tool_calls" with
  | none | some .null => .ok []
  | some (.array calls) => calls.mapM (parseToolCall json malformed unsupported)
  | some _ => .error (malformed "OpenAI-compatible message tool_calls must be an array or null")

def legacyId (request : AIRequest) : String :=
  "legacy_function_call_" ++ request.runId ++ "_" ++ toString request.messages.length

/-- The legacy `function_call` counts when there are no `tool_calls`. -/
def withLegacyCall (request : AIRequest) (native : JsonValue) (calls : List ToolCall) :
    Except Exc (List ToolCall) :=
  match native.find? "function_call" with
  | none | some .null => .ok calls
  | some (.object function) => do
    let (name, rawArguments) ← parseFunction (.object function) (malformed
      "OpenAI-compatible legacy function_call requires a non-empty string name and string arguments")
    return if calls = [] then
      [makeCall json (legacyId request) name rawArguments
        (.ofMembers [("legacy_function_call", .boolean true), ("function_call", .object function)])]
    else calls
  | some _ => .error (malformed "OpenAI-compatible message function_call must be an object or null")

def hasRefusal (native : JsonValue) : Bool := native.member "refusal" != .null

def withRefusal (native : JsonValue) (contents : List Content) : List Content :=
  match contents, native.find? "refusal" with
  | [], some (.string refusal) => [.text refusal]
  | _, _ => contents

def withAudio (malformedAudio : Exc) (native : JsonValue) (contents : List Content) : Except Exc (List Content) :=
  match native.find? "audio" with
  | none | some .null => .ok contents
  | some (.object m) => do
    let audio := JsonValue.object m
    let invalid := malformed "OpenAI-compatible message audio has invalid id, data, expiry, or transcript"
    throwIf ((← requireString audio "id" invalid) = "") invalid
    let data ← requireString audio "data" invalid
    checkMember audio "expires_at" JsonValue.isNumberInteger invalid
    checkMember audio "transcript" JsonValue.isString invalid
    match base64Decode data with
    | none | some [] => .error malformedAudio
    | some decoded => do
      let transcript := if contents = [] then Message.textContents (audio.stringField "transcript") else []
      let content ← Content.audioBytes decoded "application/octet-stream" (audio.erase "data")
      return contents ++ transcript ++ [content]
  | some _ => .error (malformed "OpenAI-compatible message audio must be an object or null")

end

def parseUsage (usage : JsonValue) : TokenUsage :=
  { inputTokens := usage.sizeField "prompt_tokens"
    outputTokens := usage.sizeField "completion_tokens"
    totalTokens := usage.sizeField "total_tokens"
    reasoningTokens := (usage.member "completion_tokens_details").sizeField "reasoning_tokens"
    cachedInputTokens := (usage.member "prompt_tokens_details").sizeField "cached_tokens" }

def parseResponse (json : JsonText) (request : AIRequest) (response : HttpResponse) : Except Exc AIResponse := do
  let (body, requestId) ← responseBody json response .openaiCompatible "x-request-id" "id" (httpError json response)
  let malformed := malformedResponse .openaiCompatible response requestId
  let choice ← parseChoice malformed body
  let native ← parseMessage malformed choice
  let contents ← parseContents malformed native
  let calls ← parseToolCalls json malformed (fun type => .provider
    ("OpenAI-compatible tool call type is not supported: " ++ type) .openaiCompatible response.status
    "unsupported_tool_call" requestId) native
  let calls ← withLegacyCall json malformed request native calls
  let contents ← withAudio malformed (.provider "OpenAI-compatible message audio contains malformed base64"
    .openaiCompatible response.status "malformed_audio" requestId) native (withRefusal native contents)
  return {
    message := (Message.assistant contents calls).setProviderMetadata
      (nativeMetadata "openai_compatible" "message" native)
    finishReason := finishReason (choice.stringField "finish_reason") (!calls.isEmpty) (hasRefusal native)
    usage := parseUsage (body.member "usage")
    providerModel := body.stringField "model"
    providerRequestId := requestId
    providerMetadata := nativeMetadata "openai_compatible" "response" body }

/-! ## The client -/

structure Impl where
  config : OpenAICompatibleConfig
  endpoint : String
  apiKey : Option String
  valid : validateProvider config.model .openaiCompatible = .ok ()

def Impl.make (getenv : String → Option String) (config : OpenAICompatibleConfig) : Except Exc Impl := do
  let endpoint ← CompatibleClient.endpoint config.baseUrl
  let apiKey ← resolveOptionalCredential getenv config.apiKey config.apiKeyEnvironment
  match hv : validateProvider config.model .openaiCompatible with
  | .error e => .error e
  | .ok () => return { config := { config with apiKey := none }, endpoint, apiKey, valid := hv }

theorem Impl.make_model {getenv : String → Option String} {config : OpenAICompatibleConfig} {impl : Impl}
    (h : Impl.make getenv config = .ok impl) : impl.config.model = config.model := by
  unfold Impl.make at h
  simp only [bind_eq_ok] at h
  obtain ⟨_, _, _, _, h⟩ := h
  split at h
  · cases h
  · cases h
    rfl

def Impl.headers (impl : Impl) : List HttpHeader :=
  let headers : List HttpHeader := [{ name := "Content-Type", value := "application/json" }]
  let headers :=
    match impl.apiKey with
    | some key => setHeader headers "Authorization" ("Bearer " ++ key)
    | none => headers
  applyExtraHeaders headers impl.config.extraHeaders

def Impl.generate (json : JsonText) (send : HttpRequest → Except Exc HttpResponse) (impl : Impl)
    (request : AIRequest) : Except Exc AIResponse := do
  let body ← makeRequest impl.config request
  exchange json send (collectSensitiveValues impl.headers [impl.apiKey.getD ""])
    { url := impl.endpoint, headers := impl.headers, body := json.dump body } (parseResponse json request)

end CompatibleClient

end NeuralPlus
