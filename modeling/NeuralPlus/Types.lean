import NeuralPlus.Fallible
import NeuralPlus.Json

/-!
# Messages, requests, responses and errors

The provider-independent values of `types.hpp`. `Content` and `Message` have
private constructors in the source; here each carries what its factory
functions guarantee.
-/

namespace NeuralPlus

abbrev SizeT := UInt64

def SizeT.max : SizeT := 0xFFFFFFFFFFFFFFFF

theorem SizeT.max_toNat : SizeT.max.toNat = 2 ^ 64 - 1 := rfl

theorem SizeT.max_sub_toNat (n : SizeT) : (SizeT.max - n).toNat = SizeT.max.toNat - n.toNat := by
  refine UInt64.toNat_sub_of_le _ _ (UInt64.le_iff_toNat_le.mpr ?_)
  have := n.toNat_lt
  rw [SizeT.max_toNat]
  omega

/-- A sum within some limit does not wrap. -/
theorem SizeT.toNat_add_of_le {a b limit : SizeT} (h : a.toNat + b.toNat ≤ limit.toNat) :
    (a + b).toNat = a.toNat + b.toNat := by
  have := limit.toNat_lt
  rw [UInt64.toNat_add, Nat.mod_eq_of_lt (by omega)]

/-- What the guards `b > max() - a` of the source keep from wrapping. -/
theorem SizeT.toNat_add_of_le_sub {a b : SizeT} (h : b ≤ SizeT.max - a) : (a + b).toNat = a.toNat + b.toNat := by
  have hfits := UInt64.le_iff_toNat_le.mp h
  rw [SizeT.max_sub_toNat, SizeT.max_toNat] at hfits
  have ha := a.toNat_lt
  rw [UInt64.toNat_add, Nat.mod_eq_of_lt (by omega)]

inductive Provider where
  | openai | anthropic | gemini | openaiCompatible | custom
  deriving DecidableEq, Repr

def Provider.toString : Provider → String
  | openai => "openai"
  | anthropic => "anthropic"
  | gemini => "gemini"
  | openaiCompatible => "openai_compatible"
  | custom => "custom"

inductive Role where
  | system | user | assistant | tool
  deriving DecidableEq, Repr

def Role.toString : Role → String
  | system => "system"
  | user => "user"
  | assistant => "assistant"
  | tool => "tool"

inductive FinishReason where
  | stop | toolCalls | length | contentFilter | refusal | error | unknown
  deriving DecidableEq, Repr

def FinishReason.toString : FinishReason → String
  | stop => "stop"
  | toolCalls => "tool_calls"
  | length => "length"
  | contentFilter => "content_filter"
  | refusal => "refusal"
  | error => "error"
  | unknown => "unknown"

/-! ## Exceptions -/

/-- What a call can throw. `std` is any other `std::exception`, `unknown` a
value that is not a `std::exception`. -/
inductive Exc where
  | provider (message : String) (provider : Provider) (status : Int) (code requestId : String)
  | configuration (message : String)
  | sessionInUse (message : String)
  | maxRounds (message : String)
  | transport (message : String)
  | invalidArgument (message : String)
  | logic (message : String)
  | jsonType (message : String)
  | std (message : String)
  | unknown
  deriving DecidableEq, Repr

def Exc.what? : Exc → Option String
  | provider m _ _ _ _ | configuration m | sessionInUse m | maxRounds m | transport m
  | invalidArgument m | logic m | jsonType m | std m => some m
  | unknown => none

/-! ## Typed access to JSON -/

namespace JsonValue

def getString : JsonValue → Except Exc String
  | string s => .ok s
  | _ => .error (.jsonType "type must be string")

def getBool : JsonValue → Except Exc Bool
  | boolean b => .ok b
  | _ => .error (.jsonType "type must be boolean")

/-- Iteration over a value the code takes for an array. -/
def getArray : JsonValue → Except Exc (List JsonValue)
  | array xs => .ok xs
  | _ => .error (.jsonType "type must be array")

def getObject : JsonValue → Except Exc (List (String × JsonValue))
  | object m => .ok m
  | _ => .error (.jsonType "type must be object")

end JsonValue

/-! ## Content parts -/

inductive ContentType where
  | text | image | audio | file | extension
  deriving DecidableEq, Repr

def ContentType.toNat : ContentType → Nat
  | text => 0
  | image => 1
  | audio => 2
  | file => 3
  | extension => 4

inductive ContentSource where
  | value | url | bytes | providerData
  deriving DecidableEq, Repr

def ContentSource.toNat : ContentSource → Nat
  | value => 0
  | url => 1
  | bytes => 2
  | providerData => 3

def Content.wellFormed (type : ContentType) (source : ContentSource) (url : String) (bytes : List UInt8)
    (mediaType provider : String) (options providerData : JsonValue) : Bool :=
  options.isObject && providerData.isObject &&
    match type, source with
    | .text, .value => true
    | .image, .url | .audio, .url | .file, .url => url != ""
    | .image, .bytes | .audio, .bytes | .file, .bytes => !bytes.isEmpty && mediaType != ""
    | .extension, .providerData => provider != ""
    | _, _ => false

structure Content where
  type : ContentType
  source : ContentSource
  value : String := ""
  url : String := ""
  bytes : List UInt8 := []
  mediaType : String := ""
  filename : String := ""
  provider : String := ""
  options : JsonValue := .emptyObject
  providerData : JsonValue := .emptyObject
  valid : Content.wellFormed type source url bytes mediaType provider options providerData = true
  deriving DecidableEq

namespace Content

def text (value : String) : Content :=
  { type := .text, source := .value, value, valid := rfl }

inductive Media where
  | image | audio | file
  deriving DecidableEq

def Media.type : Media → ContentType
  | image => .image
  | audio => .audio
  | file => .file

def Media.name : Media → String
  | image => "image"
  | audio => "audio"
  | file => "file"

def ofUrl (media : Media) (url mediaType filename : String) (options : JsonValue) : Except Exc Content :=
  if hu : url = "" then .error (.invalidArgument (media.name ++ " URL must not be empty"))
  else if ho : options.isObject = true then
    .ok { type := media.type, source := .url, url, mediaType, filename, options,
          valid := by cases media <;> simp [wellFormed, Media.type, ho, hu] }
  else .error (.invalidArgument (media.name ++ " options must be a JSON object"))

def ofBytes (media : Media) (bytes : List UInt8) (mediaType filename : String) (options : JsonValue) :
    Except Exc Content :=
  if hb : bytes = [] then .error (.invalidArgument (media.name ++ " bytes must not be empty"))
  else if hm : mediaType = "" then .error (.invalidArgument (media.name ++ " media type must not be empty"))
  else if ho : options.isObject = true then
    .ok { type := media.type, source := .bytes, bytes, mediaType, filename, options,
          valid := by cases media <;> simp [wellFormed, Media.type, ho, hb, hm] }
  else .error (.invalidArgument (media.name ++ " options must be a JSON object"))

def imageUrl (url : String) (mediaType : String := "") (options : JsonValue := .emptyObject) : Except Exc Content :=
  ofUrl .image url mediaType "" options

def imageBytes (bytes : List UInt8) (mediaType : String) (options : JsonValue := .emptyObject) : Except Exc Content :=
  ofBytes .image bytes mediaType "" options

def audioUrl (url : String) (mediaType : String := "") (options : JsonValue := .emptyObject) : Except Exc Content :=
  ofUrl .audio url mediaType "" options

def audioBytes (bytes : List UInt8) (mediaType : String) (options : JsonValue := .emptyObject) : Except Exc Content :=
  ofBytes .audio bytes mediaType "" options

def fileUrl (url : String) (mediaType filename : String := "") (options : JsonValue := .emptyObject) :
    Except Exc Content :=
  ofUrl .file url mediaType filename options

def fileBytes (bytes : List UInt8) (mediaType : String) (filename : String := "")
    (options : JsonValue := .emptyObject) : Except Exc Content :=
  ofBytes .file bytes mediaType filename options

def extension (provider : String) (providerData : JsonValue) : Except Exc Content :=
  if hp : provider = "" then .error (.invalidArgument "extension provider must not be empty")
  else if hd : providerData.isObject = true then
    .ok { type := .extension, source := .providerData, provider, providerData,
          valid := by simp [wellFormed, hd, hp] }
  else .error (.invalidArgument "extension provider data must be a JSON object")

theorem source_cases (c : Content) :
    (c.type = .text ∧ c.source = .value) ∨
    (c.type = .extension ∧ c.source = .providerData) ∨
    ((c.type = .image ∨ c.type = .audio ∨ c.type = .file) ∧ (c.source = .url ∨ c.source = .bytes)) := by
  have h := c.valid
  cases ht : c.type <;> cases hs : c.source <;> simp_all [wellFormed]

section
variable {media : Media} {url mediaType filename provider : String} {bytes : List UInt8} {options data : JsonValue}
  {c : Content}

theorem ofUrl_ok (h : ofUrl media url mediaType filename options = .ok c) : c.type = media.type ∧ c.value = "" := by
  unfold ofUrl at h
  by_cases hu : url = ""
  · rw [dif_pos hu] at h
    cases h
  · rw [dif_neg hu] at h
    by_cases ho : options.isObject = true
    · rw [dif_pos ho] at h
      rw [← Except.ok.inj h]
      exact ⟨rfl, rfl⟩
    · rw [dif_neg ho] at h
      cases h

theorem ofBytes_ok (h : ofBytes media bytes mediaType filename options = .ok c) :
    c.type = media.type ∧ c.value = "" := by
  unfold ofBytes at h
  by_cases hb : bytes = []
  · rw [dif_pos hb] at h
    cases h
  · rw [dif_neg hb] at h
    by_cases hm : mediaType = ""
    · rw [dif_pos hm] at h
      cases h
    · rw [dif_neg hm] at h
      by_cases ho : options.isObject = true
      · rw [dif_pos ho] at h
        rw [← Except.ok.inj h]
        exact ⟨rfl, rfl⟩
      · rw [dif_neg ho] at h
        cases h

theorem extension_ok (h : extension provider data = .ok c) :
    c.type = .extension ∧ c.provider = provider ∧ c.providerData = data ∧ c.value = "" := by
  unfold extension at h
  by_cases hp : provider = ""
  · rw [dif_pos hp] at h
    cases h
  · rw [dif_neg hp] at h
    by_cases hd : data.isObject = true
    · rw [dif_pos hd] at h
      rw [← Except.ok.inj h]
      exact ⟨rfl, rfl, rfl, rfl⟩
    · rw [dif_neg hd] at h
      cases h

theorem media_ne_text (media : Media) : media.type ≠ .text := by
  cases media <;> decide

theorem media_ne_extension (media : Media) : media.type ≠ .extension := by
  cases media <;> decide

end

end Content

/-! ## Messages -/

structure ToolCall where
  id : String
  name : String
  arguments : JsonValue := .emptyObject
  rawArguments : String := "\x7b\x7d"
  argumentsValid : Bool := true
  providerMetadata : JsonValue := .emptyObject
  deriving DecidableEq, Inhabited

structure ToolSpec where
  name : String
  description : String
  inputSchema : JsonValue := .ofMembers [("type", .string "object"), ("properties", .emptyObject)]
  providerOptions : JsonValue := .emptyObject
  deriving DecidableEq

def Message.wellFormed (role : Role) (toolCalls : List ToolCall) (toolCallId toolName : String)
    (toolError : Bool) : Bool :=
  match role with
  | .tool => toolCallId != "" && toolName != "" && toolCalls.isEmpty
  | .assistant => toolCallId == "" && toolName == "" && !toolError
  | _ => toolCallId == "" && toolName == "" && !toolError && toolCalls.isEmpty

structure Message where
  role : Role
  contents : List Content := []
  toolCalls : List ToolCall := []
  toolCallId : String := ""
  toolName : String := ""
  toolError : Bool := false
  providerMetadata : JsonValue := .emptyObject
  valid : Message.wellFormed role toolCalls toolCallId toolName toolError = true
  deriving DecidableEq

namespace Message

def textContents (text : String) : List Content :=
  if text = "" then [] else [Content.text text]

def system (text : String) : Except Exc Message :=
  if text = "" then .error (.invalidArgument "system message must not be empty")
  else .ok { role := .system, contents := [Content.text text], valid := rfl }

def user (contents : List Content) : Message :=
  { role := .user, contents, valid := rfl }

def userText (text : String) : Message := user (textContents text)

def assistant (contents : List Content) (toolCalls : List ToolCall := []) : Message :=
  { role := .assistant, contents, toolCalls, valid := rfl }

def assistantText (text : String) (toolCalls : List ToolCall := []) : Message :=
  assistant (textContents text) toolCalls

def tool (callId toolName : String) (contents : List Content) (isError : Bool := false) : Except Exc Message :=
  if hi : callId = "" then .error (.invalidArgument "tool call id must not be empty")
  else if hn : toolName = "" then .error (.invalidArgument "tool name must not be empty")
  else .ok { role := .tool, contents, toolCallId := callId, toolName, toolError := isError,
             valid := by simp [wellFormed, hi, hn] }

def setProviderMetadata (m : Message) (metadata : JsonValue) : Message :=
  { m with providerMetadata := metadata }

def text (m : Message) : String :=
  m.contents.foldl (fun r c => if c.type = .text then r ++ c.value else r) ""

theorem toolCallId_ne {m : Message} (h : m.role = .tool) : m.toolCallId ≠ "" := by
  have hv := m.valid
  rw [h] at hv
  simp only [wellFormed, Bool.and_eq_true, bne_iff_ne] at hv
  exact hv.1.1

@[simp] theorem setProviderMetadata_role (m : Message) (d : JsonValue) : (m.setProviderMetadata d).role = m.role := rfl

end Message

/-! ## Models, requests and responses -/

structure ModelCapabilities where
  textInput : Bool := true
  imageInput : Bool := false
  audioInput : Bool := false
  fileInput : Bool := false
  tools : Bool := false
  deriving DecidableEq

structure ModelDescriptor where
  provider : Provider := .custom
  id : String
  capabilities : ModelCapabilities := {}
  maxOutputTokens : Option SizeT := none
  providerOptions : JsonValue := .emptyObject
  deriving DecidableEq

structure GenerateOptions where
  temperature : Option Double := none
  maxOutputTokens : Option SizeT := none
  providerOptions : JsonValue := .emptyObject
  deriving DecidableEq

structure TokenUsage where
  inputTokens : Option SizeT := none
  outputTokens : Option SizeT := none
  totalTokens : Option SizeT := none
  cachedInputTokens : Option SizeT := none
  cacheCreationInputTokens : Option SizeT := none
  reasoningTokens : Option SizeT := none
  deriving DecidableEq, Repr

structure AIRequest where
  sessionId : String
  runId : String
  systemMessage : Option String
  messages : List Message
  tools : List ToolSpec
  options : GenerateOptions
  deriving DecidableEq

structure AIResponse where
  message : Message
  finishReason : FinishReason := .unknown
  usage : TokenUsage := {}
  providerRequestId : String := ""
  providerModel : String := ""
  modelRounds : SizeT := 1
  toolCalls : SizeT := 0
  requiresContinuation : Bool := false
  providerMetadata : JsonValue := .emptyObject
  deriving DecidableEq

end NeuralPlus
