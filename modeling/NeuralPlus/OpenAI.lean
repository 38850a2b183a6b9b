import NeuralPlus.Client
import NeuralPlus.Common

/-!
# The OpenAI Responses adapter

`providers/openai.cpp`: how the history becomes the `input` array, how a
response becomes an assistant message with its `output` array attached, and
one call of `generate_once`.
-/

namespace NeuralPlus

open Fallible

structure OpenAIConfig where
  model : ModelDescriptor
  apiKey : Option String := none
  baseUrl : String := "https://api.openai.com/v1"
  organization : String := ""
  project : String := ""
  extraHeaders : List HttpHeader := []

namespace OpenAIClient

/-! ## The history -/

def nativeOutput (message : Message) : Option (List JsonValue) :=
  match nativeMember message "openai" "output" with
  | some (.array output) => some output
  | _ => none

def inputFile (content : Content) (key value : String) : JsonValue :=
  setIfSome (.ofMembers [("type", .string "input_file"), (key, .string value)]) "filename"
    (if content.filename = "" then none else some (.string content.filename))

def inputImage (content : Content) (url : String) : JsonValue :=
  setIfSome (.ofMembers [("type", .string "input_image"), ("image_url", .string url)]) "detail" (imageDetail content)

def inputPart (content : Content) : Except Exc JsonValue :=
  match content.type, content.source with
  | .text, .value => .ok (.ofMembers [("type", .string "input_text"), ("text", .string content.value)])
  | .image, .url => .ok (inputImage content content.url)
  | .image, .bytes => .ok (inputImage content (dataUrl content))
  | .file, .url => .ok (inputFile content "file_url" content.url)
  | .file, .bytes => .ok (inputFile content "file_data" (dataUrl content))
  | .extension, .providerData =>
    if content.provider = "openai" then .ok content.providerData else .error (unsupportedContent .openai content)
  | _, _ => .error (unsupportedContent .openai content)

def messageContent (message : Message) : Except Exc JsonValue := do
  return .array (← message.contents.mapM inputPart)

def toolOutput (message : Message) : Except Exc JsonValue :=
  match message.contents with
  | [] => .ok (.string "")
  | [content] =>
    if content.type = .text ∧ content.source = .value then .ok (.string content.value) else messageContent message
  | _ => messageContent message

def functionCall (call : ToolCall) : JsonValue :=
  setIfSome (.ofMembers [("type", .string "function_call"), ("call_id", .string call.id), ("name", .string call.name),
    ("arguments", .string call.rawArguments)]) "id" ((call.providerMetadata.find? "id").filter JsonValue.isString)

def roleMessage (role : String) (message : Message) : Except Exc JsonValue := do
  return .ofMembers [("role", .string role), ("content", ← messageContent message)]

def assistantContent (message : Message) : Except Exc (List JsonValue) :=
  if message.contents = [] then .ok [] else do return [← roleMessage "assistant" message]

def appendHistory (input : List JsonValue) (message : Message) : Except Exc (List JsonValue) :=
  match message.role with
  | .assistant =>
    match nativeOutput message with
    | some output => .ok (input ++ output)
    | none => do return input ++ (← assistantContent message) ++ message.toolCalls.map functionCall
  | .tool => do
    return input ++ [.ofMembers [("type", .string "function_call_output"), ("call_id", .string message.toolCallId),
      ("output", ← toolOutput message)]]
  | .system => do return input ++ [← roleMessage "developer" message]
  | .user => do return input ++ [← roleMessage "user" message]

def functionDeclaration (tool : ToolSpec) : JsonValue :=
  declaration "parameters" { tool with providerOptions := tool.providerOptions.set "type" (.string "function") }

def makeRequest (config : OpenAIConfig) (request : AIRequest) : Except Exc JsonValue := do
  let body ← mergedProviderOptions config.model.providerOptions request.options.providerOptions
  let body := ((body.set "model" (.string config.model.id)).set "stream" (.boolean false)).set "background"
    (.boolean false)
  let input ← request.messages.foldlM appendHistory []
  let body := body.set "input" (.array input)
  let body := setIfSome body "instructions" (request.systemMessage.map .string)
  let body ← withTools "OpenAI" body (request.tools.map functionDeclaration)
  let body := setIfSome body "max_output_tokens" (request.options.maxOutputTokens.map .unsigned)
  return setIfSome body "temperature" (request.options.temperature.map .float)

/-! ## The response -/

def httpError (json : JsonText) (response : HttpResponse) (requestId : String) : Exc :=
  let error := errorObject json response
  let code := error.stringField "code"
  providerError .openai response (error.stringField "message") (if code = "" then error.stringField "type" else code)
    requestId

def finishReason (body : JsonValue) (hasToolCalls hasRefusal : Bool) : FinishReason :=
  let status := body.stringField "status"
  let reason := (body.member "incomplete_details").stringField "reason"
  if hasToolCalls then .toolCalls
  else if hasRefusal then .refusal
  else if status = "failed" then .error
  else if status = "completed" then .stop
  else if status = "incomplete" ∧ reason = "max_output_tokens" then .length
  else if status = "incomplete" ∧ reason = "content_filter" then .contentFilter
  else .unknown

def imageMediaType (bytes : List UInt8) : String :=
  if bytes.take 4 = [0x89, 0x50, 0x4E, 0x47] then "image/png"
  else if bytes.take 3 = [0xFF, 0xD8, 0xFF] then "image/jpeg"
  else if bytes.take 4 = [0x52, 0x49, 0x46, 0x46] ∧ (bytes.drop 8).take 4 = [0x57, 0x45, 0x42, 0x50] then "image/webp"
  else "application/octet-stream"

section
variable (json : JsonText) (malformed : String → Exc)

def parsePart (parsed : Parsed) (part : JsonValue) : Except Exc Parsed := do
  throwIf (part.isObject = false) (malformed "OpenAI response message content parts must be objects")
  checkMember part "type" JsonValue.isString
    (malformed "OpenAI response message content part type must be a string")
  let type := part.stringField "type"
  if type = "output_text" then
    return parsed.content (.text (← requireString part "text"
      (malformed "OpenAI output_text content requires string text")))
  else if type = "refusal" then
    let refusal ← requireString part "refusal" (malformed "OpenAI refusal content requires a string refusal")
    return { parsed.content (.text refusal) with refusal := true }
  else return parsed.content (← Content.extension "openai" part)

def parseImage (malformedImage : Exc) (parsed : Parsed) (item : JsonValue) : Except Exc Parsed := do
  let encoded ← requireString item "result" (malformed "OpenAI image generation output requires a string result")
  match base64Decode encoded with
  | none | some [] => .error malformedImage
  | some decoded => return parsed.content (← Content.imageBytes decoded (imageMediaType decoded))

def parseFunctionCall (parsed : Parsed) (item : JsonValue) : Except Exc Parsed :=
  let invalid := malformed
    "OpenAI function_call requires non-empty string call_id and name fields and a string arguments field"
  match item.find? "call_id", item.find? "name", item.find? "arguments" with
  | some (.string id), some (.string name), some (.string rawArguments) => do
    throwIf (id = "" ∨ name = "") invalid
    checkMember item "id" JsonValue.isString (malformed "OpenAI function_call id must be a string when present")
    let (arguments, argumentsValid) := parseToolArguments json rawArguments
    return parsed.call { id, name, arguments, rawArguments, argumentsValid, providerMetadata := item }
  | _, _, _ => .error invalid

def parseItem (malformedImage : Exc) (parsed : Parsed) (item : JsonValue) : Except Exc Parsed := do
  throwIf (item.isObject = false) (malformed "OpenAI response output items must be objects")
  checkMember item "type" JsonValue.isString (malformed "OpenAI response output item type must be a string")
  let type := item.stringField "type"
  if type = "message" then
    let parts ← requireArray item "content" (malformed "OpenAI response message content must be an array")
    parts.foldlM (parsePart malformed) parsed
  else if type = "image_generation_call" then parseImage malformed malformedImage parsed item
  else if type = "function_call" then parseFunctionCall json malformed parsed item
  -- items of other types are dropped
  else return parsed

end

/-- A response without content may carry an error message. -/
def orError (body : JsonValue) (contents : List Content) : List Content :=
  if contents = [] then Message.textContents ((body.member "error").stringField "message") else contents

def parseUsage (usage : JsonValue) : TokenUsage :=
  { inputTokens := usage.sizeField "input_tokens"
    outputTokens := usage.sizeField "output_tokens"
    totalTokens := usage.sizeField "total_tokens"
    cachedInputTokens := (usage.member "input_tokens_details").sizeField "cached_tokens"
    reasoningTokens := (usage.member "output_tokens_details").sizeField "reasoning_tokens" }

def parseResponse (json : JsonText) (response : HttpResponse) : Except Exc AIResponse := do
  let (body, requestId) ← responseBody json response .openai "x-request-id" "id" (httpError json response)
  let malformed := malformedResponse .openai response requestId
  let output ← requireArray body "output" (malformed "OpenAI response is missing the output array")
  let parsed ← output.foldlM (parseItem json malformed (.provider "OpenAI returned malformed base64 image data" .openai
    response.status "malformed_image" requestId)) {}
  return {
    message := (Message.assistant (orError body parsed.contents) parsed.calls).setProviderMetadata
      (nativeMetadata "openai" "output" (.array output))
    finishReason := finishReason body (!parsed.calls.isEmpty) parsed.refusal
    usage := parseUsage (body.member "usage")
    providerModel := body.stringField "model"
    providerRequestId := requestId
    providerMetadata := nativeMetadata "openai" "response" body }

/-! ## The client -/

structure Impl where
  config : OpenAIConfig
  endpoint : String
  apiKey : String
  valid : validateProvider config.model .openai = .ok ()

def Impl.make (getenv : String → Option String) (config : OpenAIConfig) : Except Exc Impl := do
  let endpoint ← joinUrl config.baseUrl "/responses"
  let apiKey ← resolveRequiredCredential getenv config.apiKey ["OPENAI_API_KEY"] "OpenAI"
  match hv : validateProvider config.model .openai with
  | .error e => .error e
  | .ok () => return { config := { config with apiKey := none }, endpoint, apiKey, valid := hv }

theorem Impl.make_model {getenv : String → Option String} {config : OpenAIConfig} {impl : Impl}
    (h : Impl.make getenv config = .ok impl) : impl.config.model = config.model := by
  unfold Impl.make at h
  simp only [bind_eq_ok] at h
  obtain ⟨_, _, _, _, h⟩ := h
  split at h
  · cases h
  · cases h
    rfl

def Impl.headers (impl : Impl) : List HttpHeader :=
  let headers : List HttpHeader :=
    [{ name := "Authorization", value := "Bearer " ++ impl.apiKey },
     { name := "Content-Type", value := "application/json" }]
  let headers := if impl.config.organization = "" then headers
    else setHeader headers "OpenAI-Organization" impl.config.organization
  let headers := if impl.config.project = "" then headers
    else setHeader headers "OpenAI-Project" impl.config.project
  applyExtraHeaders headers impl.config.extraHeaders

def Impl.generate (json : JsonText) (send : HttpRequest → Except Exc HttpResponse) (impl : Impl)
    (request : AIRequest) : Except Exc AIResponse := do
  let body ← makeRequest impl.config request
  exchange json send (collectSensitiveValues impl.headers [impl.apiKey])
    { url := impl.endpoint, headers := impl.headers, body := json.dump body } (parseResponse json)

end OpenAIClient

end NeuralPlus
