import NeuralPlus.Client
import NeuralPlus.Common

/-!
# The Gemini generateContent adapter

`providers/gemini.cpp`: messages become turns of parts, and the content object
of a candidate stays attached to its message so that its parts, thought
signatures included, are replayed as they came.
-/

namespace NeuralPlus

open Fallible

structure GeminiConfig where
  model : ModelDescriptor
  apiKey : Option String := none
  baseUrl : String := "https://generativelanguage.googleapis.com/v1beta"
  extraHeaders : List HttpHeader := []

namespace GeminiClient

/-! ## The history -/

def nativeContent (message : Message) : Option JsonValue :=
  match nativeMember message "gemini" "content" with
  | some (.object content) => some (.object content)
  | _ => none

def inlineData (content : Content) : JsonValue :=
  .ofMembers [("inlineData", .ofMembers [("mimeType", .string content.mediaType),
    ("data", .string (base64Encode content.bytes))])]

def fileData (content : Content) : JsonValue :=
  .ofMembers [("fileData", setIfSome (.ofMembers [("fileUri", .string content.url)]) "mimeType"
    (if content.mediaType = "" then none else some (.string content.mediaType)))]

def isGeminiFile (url : String) : Bool := hasPrefix "https://generativelanguage.googleapis.com/" url

def isGoogleStorage (url : String) : Bool := hasPrefix "gs://" url

def part (content : Content) : Except Exc JsonValue :=
  match content.type, content.source with
  | .text, .value => .ok (.ofMembers [("text", .string content.value)])
  | .image, .bytes | .audio, .bytes | .file, .bytes => .ok (inlineData content)
  | .image, .url | .audio, .url | .file, .url =>
    if isGeminiFile content.url ∨ isGoogleStorage content.url then .ok (fileData content)
    else
      .error (.provider "Gemini media URLs must be uploaded File API or gs:// URIs; use inline bytes for arbitrary media data"
        .gemini 0 "unsupported_media_url" "")
  | .extension, .providerData =>
    if content.provider = "gemini" then .ok content.providerData else .error (unsupportedContent .gemini content)
  | _, _ => .error (unsupportedContent .gemini content)

def parts (message : Message) : Except Exc (List JsonValue) := message.contents.mapM part

def appendTurn : List JsonValue → String → List JsonValue → List JsonValue := NeuralPlus.appendTurn "parts"

def toolResponse (json : JsonText) (message : Message) : JsonValue :=
  let response :=
    match json.parse message.text with
    | some (.object value) => .object value
    | some value => .ofMembers [("result", value)]
    | none => .ofMembers [("result", .string message.text)]
  if message.toolError then response.set "is_error" (.boolean true) else response

/-- The part a tool message adds for one of its contents; its text is in the response. -/
def toolResponsePart (content : Content) : Except Exc (Option JsonValue) :=
  match content.type, content.source with
  | .text, _ => .ok none
  | .image, .bytes | .audio, .bytes | .file, .bytes => .ok (some (inlineData content))
  | .extension, .providerData =>
    if content.provider = "gemini" then .ok (some content.providerData)
    else .error (unsupportedContent .gemini content)
  | _, _ => .error (unsupportedContent .gemini content)

def toolResponseParts (message : Message) : Except Exc (List JsonValue) := do
  return (← message.contents.mapM toolResponsePart).filterMap id

def providerSuppliedId (message : Message) : Bool :=
  (message.providerMetadata.member "functionCall").stringField "id" != ""

def functionResponse (json : JsonText) (message : Message) (responseParts : List JsonValue) : JsonValue :=
  let response := JsonValue.ofMembers [("name", .string message.toolName), ("response", toolResponse json message)]
  let response := setIfSome response "id"
    (if providerSuppliedId message then some (.string message.toolCallId) else none)
  .ofMembers [("functionResponse", setIfSome response "parts"
    (if responseParts = [] then none else some (.array responseParts)))]

def functionCall (call : ToolCall) : JsonValue :=
  if call.providerMetadata.contains "functionCall" then call.providerMetadata
  else
    .ofMembers [("functionCall", setIfSome (.ofMembers [("name", .string call.name), ("args", call.arguments)]) "id"
      (if call.id = "" then none else some (.string call.id)))]

def modelRole (role : String) : String := if role = "" then "model" else role

def appendHistory (json : JsonText) (contents : List JsonValue) (message : Message) : Except Exc (List JsonValue) :=
  match message.role with
  | .system => .ok contents
  | .assistant =>
    match nativeContent message with
    | some native =>
      match native.find? "parts" with
      | some (.array parts) => .ok (appendTurn contents (modelRole (native.stringField "role")) parts)
      | _ => .ok contents
    | none => do return appendTurn contents "model" ((← parts message) ++ message.toolCalls.map functionCall)
  | .tool => do
    return appendTurn contents "user" [functionResponse json message (← toolResponseParts message)]
  | .user => do return appendTurn contents "user" (← parts message)

def functionDeclarations (tools : List ToolSpec) : List JsonValue :=
  if tools = [] then []
  else [.ofMembers [("functionDeclarations", .array (tools.map (declaration "parameters")))]]

def withGenerationConfig (body : JsonValue) (options : GenerateOptions) : Except Exc JsonValue :=
  let config := (body.find? "generationConfig").getD .emptyObject
  if options.maxOutputTokens = none ∧ options.temperature = none then .ok body
  else if config.isObject = false then
    .error (.configuration "Gemini generationConfig provider option must be an object")
  else
    .ok (body.set "generationConfig" (setIfSome
      (setIfSome config "maxOutputTokens" (options.maxOutputTokens.map .unsigned)) "temperature"
      (options.temperature.map .float)))

def makeRequest (json : JsonText) (config : GeminiConfig) (request : AIRequest) : Except Exc JsonValue := do
  let body ← mergedProviderOptions config.model.providerOptions request.options.providerOptions
  let contents ← request.messages.foldlM (appendHistory json) []
  let body := body.set "contents" (.array contents)
  let system := systemInstruction request
  let body := if system = "" then body
    else body.set "systemInstruction" (.ofMembers [("parts", .array [.ofMembers [("text", .string system)]])])
  let body ← withTools "Gemini" body (functionDeclarations request.tools)
  withGenerationConfig body request.options

def validModelCharacter (c : Char) : Bool :=
  ('A' ≤ c && c ≤ 'Z') || ('a' ≤ c && c ≤ 'z') || ('0' ≤ c && c ≤ '9') || c = '-' || c = '_' || c = '.'

def modelPath (modelId : String) : Except Exc String := do
  let modelId := if hasPrefix "models/" modelId then String.ofList (modelId.toList.drop "models/".length) else modelId
  throwIf (modelId = "" ∨ ¬ modelId.toList.all validModelCharacter)
    (.configuration "Gemini model id must be one URL-safe model path segment")
  return "/models/" ++ modelId ++ ":generateContent"

/-! ## The response -/

def httpError (json : JsonText) (response : HttpResponse) (requestId : String) : Exc :=
  let error := errorObject json response
  providerError .gemini response (error.stringField "message") (error.stringField "status") requestId

def finishReason (reason : String) (hasToolCalls promptBlocked : Bool) : FinishReason :=
  if hasToolCalls then .toolCalls
  else if promptBlocked then .contentFilter
  else if reason = "STOP" then .stop
  else if reason = "MAX_TOKENS" then .length
  else if reason ∈ ["SAFETY", "RECITATION", "LANGUAGE", "BLOCKLIST", "PROHIBITED_CONTENT", "SPII", "IMAGE_SAFETY",
      "IMAGE_PROHIBITED_CONTENT", "IMAGE_RECITATION", "ESCALATION"] then .contentFilter
  else if reason ∈ ["MALFORMED_FUNCTION_CALL", "UNEXPECTED_TOOL_CALL", "TOO_MANY_TOOL_CALLS",
      "MISSING_THOUGHT_SIGNATURE", "MALFORMED_RESPONSE", "NO_IMAGE"] then .error
  else .unknown

section
variable (malformed : String → Exc)

def parseCandidate (body : JsonValue) (promptBlocked : Bool) : Except Exc (Option JsonValue) :=
  match body.find? "candidates" with
  | none | some (.array []) =>
    if promptBlocked then .ok none else .error (malformed "Gemini response is missing the candidates array")
  | some (.array (.object candidate :: _)) => .ok (some (.object candidate))
  | some _ => .error (malformed "Gemini response has an invalid candidates array")

def parseContent (candidate : JsonValue) : Except Exc JsonValue :=
  match candidate.find? "content" with
  | none => .ok .emptyObject
  | some (.object content) => .ok (.object content)
  | some _ => .error (malformed "Gemini response candidate has invalid content")

def parseParts (content : JsonValue) (needsParts : Bool) : Except Exc (List JsonValue) :=
  match content.find? "parts" with
  | some (.array parts) => .ok parts
  | some _ => .error (malformed "Gemini response candidate has invalid content parts")
  | none =>
    if needsParts then .error (malformed "Gemini response candidate is missing content parts and finishReason")
    else .ok []

def checkData (part : JsonValue) (key : String) (fields : List String) : Except Exc Unit :=
  match part.find? key with
  | none => .ok ()
  | some data => do
    throwIf (data.isObject = false) (malformed ("Gemini response " ++ key ++ " must be an object"))
    fields.forM fun field =>
      checkMember data field JsonValue.isString
        (malformed ("Gemini response " ++ key ++ " string field has an invalid type"))

def checkFunctionCall (part : JsonValue) : Except Exc Unit :=
  match part.find? "functionCall" with
  | none => .ok ()
  | some call => do
    let invalid := malformed "Gemini response functionCall has invalid id, non-empty name, or args"
    throwIf (call.isObject = false) (malformed "Gemini response functionCall must be an object")
    checkMember call "id" JsonValue.isString invalid
    throwIf ((← requireString call "name" invalid) = "") invalid
    checkMember call "args" JsonValue.isObject invalid

def payloadFields : List String :=
  ["text", "inlineData", "fileData", "functionCall", "functionResponse", "executableCode", "codeExecutionResult"]

def checkPart (part : JsonValue) : Except Exc Unit := do
  throwIf (part.isObject = false) (malformed "Gemini response content parts must be objects")
  checkMember part "text" JsonValue.isString (malformed "Gemini response text part must contain a string")
  checkMember part "thought" JsonValue.isBoolean (malformed "Gemini response thought marker must be a boolean")
  checkMember part "thoughtSignature" JsonValue.isString
    (malformed "Gemini response thought signature must be a string")
  checkData malformed part "inlineData" ["mimeType", "data", "displayName"]
  checkData malformed part "fileData" ["mimeType", "fileUri", "displayName"]
  checkFunctionCall malformed part
  throwIf ((payloadFields.filter part.contains).length > 1)
    (malformed "Gemini response Part contains multiple mutually exclusive payload fields")

end

def mediaKind (mediaType : String) : Content.Media :=
  if hasPrefix "image/" mediaType then .image else if hasPrefix "audio/" mediaType then .audio else .file

/-- Only files keep their display name. -/
def mediaName (data : JsonValue) (kind : Content.Media) : String :=
  if kind = .file then data.stringField "displayName" else ""

def parseInlineData (malformedData : Exc) (data : JsonValue) : Except Exc Content :=
  let mediaType := data.stringField "mimeType"
  let kind := mediaKind mediaType
  match base64Decode (data.stringField "data") with
  | none | some [] => .error malformedData
  | some decoded =>
    if mediaType = "" then .error malformedData
    else Content.ofBytes kind decoded mediaType (mediaName data kind) .emptyObject

def parseFileData (malformedFile : Exc) (data : JsonValue) : Except Exc Content :=
  let mediaType := data.stringField "mimeType"
  let uri := data.stringField "fileUri"
  let kind := mediaKind mediaType
  if uri = "" then .error malformedFile else Content.ofUrl kind uri mediaType (mediaName data kind) .emptyObject

def syntheticId (request : AIRequest) (callIndex : Nat) : String :=
  "gemini_call_" ++ request.runId ++ "_" ++ toString request.messages.length ++ "_" ++ toString callIndex

def parseFunctionCall (json : JsonText) (request : AIRequest) (callIndex : Nat) (part call : JsonValue) : ToolCall :=
  let id := call.stringField "id"
  let arguments := (call.find? "args").getD .emptyObject
  { id := if id = "" then syntheticId request callIndex else id
    name := call.stringField "name"
    arguments, rawArguments := json.dump arguments, argumentsValid := true, providerMetadata := part }

def parsePart (json : JsonText) (request : AIRequest) (malformed : String → Exc) (malformedData malformedFile : Exc)
    (parsed : Parsed) (part : JsonValue) : Except Exc Parsed := do
  checkPart malformed part
  match part.find? "text", part.find? "inlineData", part.find? "fileData", part.find? "functionCall" with
  | some text, _, _, _ =>
    -- a thought summary stays native, so that the message's text is the answer alone
    if part.find? "thought" = some (.boolean true) then return parsed.content (← Content.extension "gemini" part)
    else return parsed.content (.text (← text.getString))
  | _, some data, _, _ => return parsed.content (← parseInlineData malformedData data)
  | _, _, some data, _ => return parsed.content (← parseFileData malformedFile data)
  | _, _, _, some call => return parsed.call (parseFunctionCall json request parsed.calls.length part call)
  | _, _, _, _ => return parsed.content (← Content.extension "gemini" part)

def parseUsage (usage : JsonValue) : TokenUsage :=
  { inputTokens := usage.sizeField "promptTokenCount"
    outputTokens := usage.sizeField "candidatesTokenCount"
    totalTokens := usage.sizeField "totalTokenCount"
    cachedInputTokens := usage.sizeField "cachedContentTokenCount"
    reasoningTokens := usage.sizeField "thoughtsTokenCount" }

def parseResponse (json : JsonText) (request : AIRequest) (response : HttpResponse) : Except Exc AIResponse := do
  let (body, requestId) ← responseBody json response .gemini "x-request-id" "responseId" (httpError json response)
  let malformed := malformedResponse .gemini response requestId
  let promptBlocked := (body.member "promptFeedback").stringField "blockReason" != ""
  let candidate ← parseCandidate malformed body promptBlocked
  let candidateFinishReason := (candidate.getD .emptyObject).stringField "finishReason"
  let content ← parseContent malformed (candidate.getD .emptyObject)
  let parts ← parseParts malformed content (candidate.isSome && candidateFinishReason = "")
  let parsed ← parts.foldlM (parsePart json request malformed
    (.provider "Gemini returned malformed inline data" .gemini response.status "malformed_inline_data" requestId)
    (.provider "Gemini returned file data without a URI" .gemini response.status "malformed_file_data" requestId)) {}
  return {
    message := (Message.assistant parsed.contents parsed.calls).setProviderMetadata
      (nativeMetadata "gemini" "content" content)
    finishReason := finishReason candidateFinishReason (!parsed.calls.isEmpty) promptBlocked
    usage := parseUsage (body.member "usageMetadata")
    providerModel := body.stringField "modelVersion"
    providerRequestId := requestId
    providerMetadata := nativeMetadata "gemini" "response" body }

/-! ## The client -/

structure Impl where
  config : GeminiConfig
  endpoint : String
  apiKey : String
  valid : validateProvider config.model .gemini = .ok ()

def Impl.make (getenv : String → Option String) (config : GeminiConfig) : Except Exc Impl := do
  let endpoint ← joinUrl config.baseUrl (← modelPath config.model.id)
  let apiKey ← resolveRequiredCredential getenv config.apiKey ["GEMINI_API_KEY", "GOOGLE_API_KEY"] "Gemini"
  match hv : validateProvider config.model .gemini with
  | .error e => .error e
  | .ok () => return { config := { config with apiKey := none }, endpoint, apiKey, valid := hv }

theorem Impl.make_model {getenv : String → Option String} {config : GeminiConfig} {impl : Impl}
    (h : Impl.make getenv config = .ok impl) : impl.config.model = config.model := by
  unfold Impl.make at h
  simp only [bind_eq_ok] at h
  obtain ⟨_, _, _, _, _, _, h⟩ := h
  split at h
  · cases h
  · cases h
    rfl

def Impl.headers (impl : Impl) : List HttpHeader :=
  applyExtraHeaders
    [{ name := "x-goog-api-key", value := impl.apiKey },
     { name := "Content-Type", value := "application/json" }] impl.config.extraHeaders

def Impl.generate (json : JsonText) (send : HttpRequest → Except Exc HttpResponse) (impl : Impl)
    (request : AIRequest) : Except Exc AIResponse := do
  let body ← makeRequest json impl.config request
  exchange json send (collectSensitiveValues impl.headers [impl.apiKey])
    { url := impl.endpoint, headers := impl.headers, body := json.dump body } (parseResponse json request)

end GeminiClient

end NeuralPlus
