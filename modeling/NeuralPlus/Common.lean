import NeuralPlus.Types
import Mathlib.Data.List.Sort

/-!
# What the provider adapters share

`provider_common.cpp`: typed fields of provider objects, base64, request
headers, redaction, and the errors every adapter throws. Parsing and dumping
JSON text is the library's: `JsonText` stands for it.
-/

namespace NeuralPlus

open Fallible

/-- `JsonValue::parse(text, nullptr, false)`, none for a discarded value, and `dump()`. -/
structure JsonText where
  parse : String → Option JsonValue
  dump : JsonValue → String

structure HttpHeader where
  name : String
  value : String
  sensitive : Bool := false
  deriving DecidableEq

structure HttpRequest where
  url : String
  headers : List HttpHeader
  body : String
  deriving DecidableEq

structure HttpResponse where
  status : Int
  headers : List HttpHeader := []
  body : String
  deriving DecidableEq

def hasPrefix (pre s : String) : Bool := pre.toList.isPrefixOf s.toList

def containsText (needle s : String) : Bool := s.toList.tails.any needle.toList.isPrefixOf

def hasSuffix (suffix s : String) : Bool := suffix.toList.isSuffixOf s.toList

/-! ## ASCII case -/

def asciiLower (c : Char) : Char := if 'A' ≤ c ∧ c ≤ 'Z' then Char.ofNat (c.toNat + 32) else c

def asciiLowerText (s : String) : String := String.ofList (s.toList.map asciiLower)

def asciiEqualCaseInsensitive (left right : String) : Bool := asciiLowerText left == asciiLowerText right

def HttpResponse.header (response : HttpResponse) (name : String) : Option String :=
  (response.headers.find? fun item => asciiEqualCaseInsensitive item.name name).map HttpHeader.value

/-! ## Typed fields -/

namespace JsonValue

def stringField (object : JsonValue) (key : String) : String :=
  match object.find? key with
  | some (string s) => s
  | _ => ""

def sizeField (object : JsonValue) (key : String) : Option SizeT :=
  match object.find? key with
  | some (unsigned u) => some u
  | some (integer i) => if 0 ≤ i.toInt then some i.toUInt64 else none
  | _ => none

/-- What a lookup guarded by `is_object` goes on with; null has no members. -/
def member (object : JsonValue) (key : String) : JsonValue := (object.find? key).getD .null

@[simp] theorem member_singleton (key : String) (v : JsonValue) : (ofMembers [(key, v)]).member key = v := by
  unfold member
  rw [find?_ofMembers, OrdMap.find?_cons, if_pos rfl]
  rfl

theorem member_eq {object v : JsonValue} {key : String} (h : object.find? key = some v) : object.member key = v := by
  unfold member
  rw [h]
  rfl

theorem member_of_none {object : JsonValue} {key : String} (h : object.find? key = none) : object.member key = .null := by
  unfold member
  rw [h]
  rfl

theorem stringField_eq {object : JsonValue} {key s : String} (h : object.find? key = some (.string s)) :
    object.stringField key = s := by
  unfold stringField
  rw [h]

theorem find?_of_stringField {object : JsonValue} {key : String} (h : object.stringField key ≠ "") :
    object.find? key = some (.string (object.stringField key)) := by
  unfold stringField at h ⊢
  split at h
  · next s hs => rw [hs]
  · exact absurd rfl h

end JsonValue

def checkMember (object : JsonValue) (key : String) (valid : JsonValue → Bool) (e : Exc) : Except Exc Unit :=
  throwIf ((object.find? key).any fun v => !valid v) e

def requireString (object : JsonValue) (key : String) (e : Exc) : Except Exc String :=
  match object.find? key with
  | some (.string s) => .ok s
  | _ => .error e

def requireArray (object : JsonValue) (key : String) (e : Exc) : Except Exc (List JsonValue) :=
  match object.find? key with
  | some (.array xs) => .ok xs
  | _ => .error e

theorem requireArray_ok {object : JsonValue} {key : String} {e : Exc} {xs : List JsonValue}
    (h : requireArray object key e = .ok xs) : object.find? key = some (.array xs) := by
  unfold requireArray at h
  split at h
  · next h' => rw [h', Except.ok.inj h]
  · cases h

theorem requireString_ok {object : JsonValue} {key s : String} {e : Exc} (h : requireString object key e = .ok s) :
    object.find? key = some (.string s) := by
  unfold requireString at h
  split at h
  · next h' => rw [h', Except.ok.inj h]
  · cases h

theorem checkMember_ok {object : JsonValue} {key : String} {valid : JsonValue → Bool} {e : Exc}
    (h : checkMember object key valid e = .ok ()) {v : JsonValue} (hv : object.find? key = some v) : valid v = true := by
  unfold checkMember at h
  rw [throwIf_eq_ok, hv] at h
  simpa using h

def arrayMember (object : JsonValue) (key : String) : List JsonValue := (object.member key).getArray.toOption.getD []

theorem arrayMember_eq {object : JsonValue} {key : String} {xs : List JsonValue}
    (h : object.find? key = some (.array xs)) : arrayMember object key = xs := by
  unfold arrayMember
  rw [JsonValue.member_eq h]
  rfl

theorem mem_arrayMember {object x : JsonValue} {key : String} (h : x ∈ arrayMember object key) :
    ∃ xs, object.find? key = some (.array xs) ∧ x ∈ xs := by
  cases hfind : object.find? key with
  | none =>
    unfold arrayMember at h
    rw [JsonValue.member_of_none hfind] at h
    cases h
  | some v =>
    unfold arrayMember at h
    rw [JsonValue.member_eq hfind] at h
    cases v with
    | array xs => exact ⟨xs, rfl, h⟩
    | _ => cases h

/-! ## Base64 -/

def base64Alphabet : List Char := "ABCDEFGHIJKLMNOPQRSTUVWXYZabcdefghijklmnopqrstuvwxyz0123456789+/".toList

def base64Digit (n : Nat) : Char := base64Alphabet.getD (n % 64) 'A'

def base64EncodeChars : List UInt8 → List Char
  | a :: b :: c :: rest =>
    let value := a.toNat <<< 16 ||| b.toNat <<< 8 ||| c.toNat
    base64Digit (value >>> 18) :: base64Digit (value >>> 12) :: base64Digit (value >>> 6) :: base64Digit value ::
      base64EncodeChars rest
  | [a, b] =>
    let value := a.toNat <<< 16 ||| b.toNat <<< 8
    [base64Digit (value >>> 18), base64Digit (value >>> 12), base64Digit (value >>> 6), '=']
  | [a] =>
    let value := a.toNat <<< 16
    [base64Digit (value >>> 18), base64Digit (value >>> 12), '=', '=']
  | [] => []

def base64Encode (bytes : List UInt8) : String := String.ofList (base64EncodeChars bytes)

def decodeCharacter (c : Char) : Option Nat :=
  if 'A' ≤ c ∧ c ≤ 'Z' then some (c.toNat - 'A'.toNat)
  else if 'a' ≤ c ∧ c ≤ 'z' then some (c.toNat - 'a'.toNat + 26)
  else if '0' ≤ c ∧ c ≤ '9' then some (c.toNat - '0'.toNat + 52)
  else if c = '+' then some 62
  else if c = '/' then some 63
  else none

def base64DecodeGroups : List Char → Option (List UInt8)
  | [] => some []
  | c₀ :: c₁ :: c₂ :: c₃ :: rest => do
    let thirdPadding := c₂ = '='
    let fourthPadding := c₃ = '='
    let first ← decodeCharacter c₀
    let second ← decodeCharacter c₁
    let third ← if thirdPadding then some 0 else decodeCharacter c₂
    let fourth ← if fourthPadding then some 0 else decodeCharacter c₃
    if (thirdPadding ∧ ¬ fourthPadding) ∨ ((thirdPadding ∨ fourthPadding) ∧ rest ≠ []) ∨
        (thirdPadding ∧ second &&& 0x0F ≠ 0) ∨ (fourthPadding ∧ ¬ thirdPadding ∧ third &&& 0x03 ≠ 0) then
      none
    else
      let bytes := UInt8.ofNat (first <<< 2 ||| second >>> 4) ::
        (if thirdPadding then [] else [UInt8.ofNat ((second &&& 0x0F) <<< 4 ||| third >>> 2)]) ++
        (if fourthPadding then [] else [UInt8.ofNat ((third &&& 0x03) <<< 6 ||| fourth)])
      return bytes ++ (← base64DecodeGroups rest)
  | _ => none

def isAsciiWhitespace (c : Char) : Bool :=
  c = ' ' || c = '\t' || c = '\r' || c = '\n' || c = Char.ofNat 12 || c = Char.ofNat 11

def base64Decode (encoded : String) : Option (List UInt8) :=
  let compact := encoded.toList.filter fun c => !isAsciiWhitespace c
  if compact = [] then none else base64DecodeGroups compact

example : base64Decode (base64Encode [1, 2, 255, 0]) = some [1, 2, 255, 0] := by decide +kernel

def imageDetail (content : Content) : Option JsonValue := (content.options.find? "detail").filter JsonValue.isString

def dataUrl (content : Content) : String :=
  "data:" ++ (if content.mediaType = "" then "application/octet-stream" else content.mediaType) ++ ";base64," ++
    base64Encode content.bytes

def chatAudioFormat (content : Content) (provider : Provider) : Except Exc String :=
  match content.options.find? "format" with
  | some (.string format) =>
    if format = "" then
      .error (.provider "audio format option must be a non-empty string" provider 0 "invalid_audio_format" "")
    else .ok format
  | some _ => .error (.provider "audio format option must be a non-empty string" provider 0 "invalid_audio_format" "")
  | none =>
    if content.mediaType = "audio/mpeg" ∨ content.mediaType = "audio/mp3" then .ok "mp3"
    else if content.mediaType = "audio/wav" ∨ content.mediaType = "audio/wave" ∨ content.mediaType = "audio/x-wav" then
      .ok "wav"
    else
      .error (.provider "audio input requires MP3/WAV media type or options.format" provider 0
        "unsupported_audio_format" "")

def unsupportedContent (provider : Provider) (content : Content) : Exc :=
  .provider ("content type/source is not supported by " ++ provider.toString ++ ": type=" ++
      toString content.type.toNat ++ ", source=" ++ toString content.source.toNat)
    provider 0 "unsupported_content" ""

/-! ## Requests -/

def requireObject (value : JsonValue) (description : String) : Except Exc Unit :=
  throwIf (value.isObject = false) (.configuration (description ++ " must be a JSON object"))

def mergedProviderOptions (modelOptions requestOptions : JsonValue) : Except Exc JsonValue := do
  requireObject modelOptions "model provider_options"
  requireObject requestOptions "request provider_options"
  return modelOptions.update requestOptions

def systemInstruction (request : AIRequest) : String :=
  request.messages.foldl (fun system message =>
    if message.role ≠ .system ∨ message.text = "" then system
    else (if system = "" then system else system ++ "\n") ++ message.text) (request.systemMessage.getD "")

/-- The member a message's metadata holds for its provider: the test of the `has_native_*` functions. -/
def nativeMember (message : Message) (provider key : String) : Option JsonValue :=
  if message.providerMetadata.stringField "provider" = provider then message.providerMetadata.find? key else none

def nativeMetadata (provider key : String) (value : JsonValue) : JsonValue :=
  .ofMembers [("provider", .string provider), (key, value)]

theorem nativeMember_of_metadata {message : Message} {provider key : String} {value : JsonValue}
    (hm : message.providerMetadata = nativeMetadata provider key value) (hkey : key ≠ "provider") :
    nativeMember message provider key = some value := by
  have hprovider : (nativeMetadata provider key value).stringField "provider" = provider := by
    unfold nativeMetadata
    exact JsonValue.stringField_eq (by rw [JsonValue.find?_ofMembers]; rfl)
  unfold nativeMember
  rw [hm, if_pos hprovider, nativeMetadata, JsonValue.find?_ofMembers, OrdMap.find?_cons, if_neg (Ne.symm hkey),
    OrdMap.find?_cons, if_pos rfl]

def turn (key role : String) (blocks : List JsonValue) : JsonValue :=
  .ofMembers [("role", .string role), (key, .array blocks)]

/-- `append_anthropic_turn` and `append_gemini_turn`: the blocks join the last turn if it has their role. -/
def appendTurn (key : String) (turns : List JsonValue) (role : String) (blocks : List JsonValue) : List JsonValue :=
  match turns.getLast? with
  | none => turns ++ [turn key role blocks]
  | some last =>
    match last.find? key with
    | some (.array present) =>
      if last.stringField "role" = role then turns.dropLast ++ [last.set key (.array (present ++ blocks))]
      else turns ++ [turn key role blocks]
    | _ => turns ++ [turn key role blocks]

def declaration (schemaKey : String) (tool : ToolSpec) : JsonValue :=
  ((tool.providerOptions.set "name" (.string tool.name)).set "description" (.string tool.description)).set schemaKey
    tool.inputSchema

def configuredTools (provider : String) (body : JsonValue) : Except Exc (List JsonValue) :=
  match body.find? "tools" with
  | none => .ok []
  | some (.array configured) => .ok configured
  | some _ => .error (.configuration (provider ++ " tools provider option must be an array"))

def withTools (provider : String) (body : JsonValue) (declarations : List JsonValue) : Except Exc JsonValue := do
  let configured ← configuredTools provider body
  return if declarations = [] then body else body.set "tools" (.array (configured ++ declarations))

def setIfSome (body : JsonValue) (key : String) (value : Option JsonValue) : JsonValue :=
  match value with
  | some v => body.set key v
  | none => body

@[simp] theorem find?_setIfSome_ne {key key' : String} (h : key' ≠ key) (body : JsonValue) (value : Option JsonValue) :
    (setIfSome body key' value).find? key = body.find? key := by
  cases value with
  | none => rfl
  | some v => exact JsonValue.find?_set_ne h body v

theorem find?_setIfSome_self {body : JsonValue} (hbody : body.acceptsKey = true) (key : String) (value : Option JsonValue) :
    (setIfSome body key value).find? key = value.or (body.find? key) := by
  cases value with
  | none => rfl
  | some v =>
    unfold setIfSome
    rw [JsonValue.find?_set hbody, if_pos rfl]
    rfl

theorem mergedProviderOptions_ok {modelOptions requestOptions body : JsonValue}
    (h : mergedProviderOptions modelOptions requestOptions = .ok body) : body.isObject = true := by
  unfold mergedProviderOptions requireObject at h
  simp only [bind_eq_ok, throwIf_eq_ok, pure_eq_ok, Except.ok.injEq] at h
  obtain ⟨_, hm, _, hr, rfl⟩ := h
  cases modelOptions with
  | object m =>
    cases requestOptions with
    | object m' => rfl
    | _ => exact absurd rfl hr
  | _ => exact absurd rfl hm

theorem withTools_ok {provider key : String} {body body' : JsonValue} {declarations : List JsonValue}
    (h : withTools provider body declarations = .ok body') (hkey : "tools" ≠ key) :
    body'.find? key = body.find? key := by
  unfold withTools at h
  simp only [bind_eq_ok, pure_eq_ok, Except.ok.injEq] at h
  obtain ⟨configured, _, rfl⟩ := h
  split
  · rfl
  · exact JsonValue.find?_set_ne hkey _ _

def setHeader (headers : List HttpHeader) (name value : String) (sensitive : Bool := false) : List HttpHeader :=
  match headers with
  | [] => [⟨name, value, sensitive⟩]
  | header :: headers =>
    if asciiEqualCaseInsensitive header.name name then ⟨name, value, sensitive⟩ :: headers
    else header :: setHeader headers name value sensitive

def applyExtraHeaders (headers extra : List HttpHeader) : List HttpHeader :=
  extra.foldl (fun hs h => setHeader hs h.name h.value h.sensitive) headers

def joinUrl (baseUrl path : String) : Except Exc String := do
  throwIf (baseUrl = "") (.configuration "provider base URL cannot be empty")
  let base := String.ofList (baseUrl.toList.reverse.dropWhile (· = '/')).reverse
  return if path = "" then base else base ++ (if hasPrefix "/" path then "" else "/") ++ path

def validateProvider (model : ModelDescriptor) (expected : Provider) : Except Exc Unit := do
  throwIf (model.provider ≠ expected)
    (.configuration ("model descriptor provider does not match client protocol: expected " ++ expected.toString ++
      ", got " ++ model.provider.toString))
  throwIf (model.id = "") (.configuration "model id cannot be empty")

theorem validateProvider_ok {model : ModelDescriptor} {expected : Provider}
    (h : validateProvider model expected = .ok ()) : model.provider = expected := by
  unfold validateProvider at h
  simp only [bind_eq_ok, throwIf_eq_ok] at h
  obtain ⟨_, hp, _⟩ := h
  simpa using hp

/-- `environment_value`, given what `getenv` returns. -/
def environmentValue (getenv : String → Option String) (name : String) : Option String :=
  if name = "" then none else (getenv name).filter (· ≠ "")

def resolveRequiredCredential (getenv : String → Option String) (explicitValue : Option String)
    (environmentNames : List String) (providerName : String) : Except Exc String :=
  match explicitValue with
  | some value =>
    if value = "" then .error (.configuration (providerName ++ " API key cannot be empty")) else .ok value
  | none =>
    match environmentNames.findSome? (environmentValue getenv) with
    | some value => .ok value
    | none =>
      .error (.configuration (providerName ++ " API key is missing" ++
        if environmentNames = [] then ""
        else "; set it explicitly or through " ++ " or ".intercalate environmentNames))

def resolveOptionalCredential (getenv : String → Option String) (explicitValue environmentName : Option String) :
    Except Exc (Option String) :=
  match explicitValue, environmentName with
  | some value, _ => if value = "" then .error (.configuration "API key cannot be empty") else .ok (some value)
  | none, none => .ok none
  | none, some name =>
    if name = "" then .error (.configuration "API key environment variable name cannot be empty")
    else
      match environmentValue getenv name with
      | some value => .ok (some value)
      | none => .error (.configuration ("API key environment variable is not set: " ++ name))

/-! ## Redaction -/

def sensitiveHeaderName (name : String) : Bool :=
  let normalized := asciiLowerText name
  containsText "authorization" normalized || containsText "api-key" normalized || containsText "apikey" normalized ||
    containsText "secret" normalized || containsText "credential" normalized || hasSuffix "-token" normalized ||
    normalized == "cookie"

def authorizationHeaderName (name : String) : Bool := containsText "authorization" (asciiLowerText name)

def appendUniqueSecret (values : List String) (value : String) : List String :=
  if value = "" ∨ value ∈ values then values else values ++ [value]

/-- What follows the first run of blanks of a header value: the token of "Bearer token". -/
def headerToken (value : String) : String :=
  let blank (c : Char) : Bool := c = ' ' || c = '\t'
  String.ofList ((value.toList.dropWhile fun c => !blank c).dropWhile blank)

def collectSensitiveValues (headers : List HttpHeader) (configuredSecrets : List String) : List String :=
  headers.foldl (fun values header =>
    if !header.sensitive && !sensitiveHeaderName header.name then values
    else
      let values := appendUniqueSecret values header.value
      if authorizationHeaderName header.name then appendUniqueSecret values (headerToken header.value) else values)
    (configuredSecrets.foldl appendUniqueSecret [])

def redactChars (secrets : List (List Char)) : List Char → List Char
  | [] => []
  | c :: cs =>
    match secrets.find? fun secret => !secret.isEmpty && secret.isPrefixOf (c :: cs) with
    | none => c :: redactChars secrets cs
    | some secret => "[REDACTED]".toList ++ redactChars secrets (cs.drop (secret.length - 1))
termination_by cs => cs.length
decreasing_by all_goals (simp; try omega)

def redactSensitiveValues (secrets : List String) (input : String) : String :=
  let ordered := secrets.insertionSort fun a b => b.utf8ByteSize ≤ a.utf8ByteSize
  String.ofList (redactChars (ordered.map String.toList) input.toList)

mutual
def redactJsonStrings (secrets : List String) : JsonValue → JsonValue
  | .string s => .string (redactSensitiveValues secrets s)
  | .array xs => .array (redactJsonElements secrets xs)
  | .object m => .object (redactJsonMembers secrets m [])
  | j => j
def redactJsonElements (secrets : List String) : List JsonValue → List JsonValue
  | [] => []
  | x :: xs => redactJsonStrings secrets x :: redactJsonElements secrets xs
def redactJsonMembers (secrets : List String) :
    List (String × JsonValue) → List (String × JsonValue) → List (String × JsonValue)
  | [], redacted => redacted
  | (key, member) :: m, redacted =>
    redactJsonMembers secrets m
      (OrdMap.insert (redactSensitiveValues secrets key) (redactJsonStrings secrets member) redacted)
end

def redactSensitiveResponse (json : JsonText) (secrets : List String) (response : HttpResponse) : HttpResponse :=
  if secrets = [] then response
  else
    { response with
      headers := response.headers.map fun header => { header with value := redactSensitiveValues secrets header.value }
      body :=
        match json.parse response.body with
        | none => redactSensitiveValues secrets response.body
        | some body => json.dump (redactJsonStrings secrets body) }

/-- `throw_redacted_provider_error`, for the one kind of exception the adapters catch. -/
def redactProviderError (secrets : List String) : Exc → Exc
  | .provider message provider status code requestId =>
    .provider (redactSensitiveValues secrets message) provider status (redactSensitiveValues secrets code)
      (redactSensitiveValues secrets requestId)
  | e => e

/-- The `try` block of `Impl::generate`: send, redact, parse. -/
def exchange (json : JsonText) (send : HttpRequest → Except Exc HttpResponse) (secrets : List String)
    (request : HttpRequest) (parseResponse : HttpResponse → Except Exc AIResponse) : Except Exc AIResponse :=
  (do
    let response ← send request
    parseResponse (redactSensitiveResponse json secrets response)).mapError (redactProviderError secrets)

section
variable {json : JsonText} {send : HttpRequest → Except Exc HttpResponse} {secrets : List String} {request : HttpRequest}
  {parseResponse : HttpResponse → Except Exc AIResponse}

theorem exchange_error {e : Exc} (h : send request = .error e) :
    exchange json send secrets request parseResponse = .error (redactProviderError secrets e) := by
  unfold exchange
  rw [h]
  rfl

theorem exchange_sent {response : HttpResponse} (h : send request = .ok response) :
    exchange json send secrets request parseResponse =
      (parseResponse (redactSensitiveResponse json secrets response)).mapError (redactProviderError secrets) := by
  unfold exchange
  rw [h]
  rfl

end

/-! ## Responses -/

def successfulStatus (status : Int) : Bool := 200 ≤ status && status < 300

def responseRequestId (response : HttpResponse) (headerNames : List String) : String :=
  (headerNames.findSome? response.header).getD ""

def parseResponseJson (json : JsonText) (response : HttpResponse) (provider : Provider) (requestId : String) :
    Except Exc JsonValue :=
  match json.parse response.body with
  | some (.object m) => .ok (.object m)
  | _ => .error (.provider "provider returned malformed JSON" provider response.status "malformed_json" requestId)

def parseToolArguments (json : JsonText) (raw : String) : JsonValue × Bool :=
  match json.parse raw with
  | some value => (value, true)
  | none => (.emptyObject, false)

def providerError (provider : Provider) (response : HttpResponse) (message code requestId : String) : Exc :=
  .provider (if message = "" then "provider request failed with HTTP status " ++ toString response.status else message)
    provider response.status code requestId

def errorObject (json : JsonText) (response : HttpResponse) : JsonValue :=
  ((json.parse response.body).getD .null).member "error"

/-- The head of every parser: an HTTP error, or the body and the request id. -/
def responseBody (json : JsonText) (response : HttpResponse) (provider : Provider) (headerName idField : String)
    (httpError : String → Exc) : Except Exc (JsonValue × String) := do
  let requestId := responseRequestId response [headerName]
  throwIf (successfulStatus response.status = false) (httpError requestId)
  let body ← parseResponseJson json response provider requestId
  return (body, if requestId = "" then body.stringField idField else requestId)

theorem responseBody_ok {json : JsonText} {response : HttpResponse} {provider : Provider} {headerName idField : String}
    {httpError : String → Exc} {body : JsonValue} {requestId : String}
    (h : responseBody json response provider headerName idField httpError = .ok (body, requestId)) :
    json.parse response.body = some body ∧ body.isObject = true := by
  unfold responseBody parseResponseJson at h
  simp only [bind_eq_ok, throwIf_eq_ok, pure_eq_ok, Except.ok.injEq, Prod.mk.injEq] at h
  obtain ⟨_, _, parsed, hparsed, rfl, _⟩ := h
  split at hparsed
  · next m hm =>
    rw [← Except.ok.inj hparsed]
    exact ⟨hm, rfl⟩
  · cases hparsed

def malformedResponse (provider : Provider) (response : HttpResponse) (requestId message : String) : Exc :=
  .provider message provider response.status "malformed_response" requestId

structure Parsed where
  contents : List Content := []
  calls : List ToolCall := []
  refusal : Bool := false

def Parsed.content (p : Parsed) (c : Content) : Parsed := { p with contents := p.contents ++ [c] }

def Parsed.call (p : Parsed) (c : ToolCall) : Parsed := { p with calls := p.calls ++ [c] }

end NeuralPlus
