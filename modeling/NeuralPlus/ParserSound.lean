import NeuralPlus.ParsedItems
import NeuralPlus.Transcript

/-!
# How the parsers end

Whatever a provider sends, its parser throws a `ProviderError` of the provider
or returns a response that is well formed.
-/

namespace NeuralPlus

open Fallible

/-! ## Well-formed responses -/

def ErrorOf (own : Provider) (e : Exc) : Prop :=
  ∃ message status code requestId, e = .provider message own status code requestId

structure Content.WellFormedFor (own : Provider) (c : Content) : Prop where
  bytes : c.source = .bytes → c.bytes ≠ [] ∧ c.mediaType ≠ ""
  url : c.source = .url → c.url ≠ ""
  extension : c.type = .extension → c.provider = own.toString ∧ c.providerData.isObject = true

structure ToolCall.WellFormedFor (own : Provider) (call : ToolCall) : Prop where
  id : call.id ≠ ""
  name : call.name ≠ ""
  invalid : call.argumentsValid = false → call.arguments = .emptyObject
  object : own = .anthropic ∨ own = .gemini → call.arguments.isObject = true

structure AIResponse.WellFormedFor (own : Provider) (r : AIResponse) : Prop where
  role : r.message.role = .assistant
  contents : ∀ c ∈ r.message.contents, c.WellFormedFor own
  calls : ∀ call ∈ r.message.toolCalls, call.WellFormedFor own

structure Parsed.WellFormedFor (own : Provider) (parsed : Parsed) : Prop where
  contents : ∀ c ∈ parsed.contents, c.WellFormedFor own
  calls : ∀ call ∈ parsed.calls, call.WellFormedFor own

section
variable {own : Provider} {parsed : Parsed}

theorem Parsed.WellFormedFor.empty : Parsed.WellFormedFor own {} :=
  ⟨fun _ h => absurd h List.not_mem_nil, fun _ h => absurd h List.not_mem_nil⟩

theorem Parsed.WellFormedFor.content (h : parsed.WellFormedFor own) {c : Content} (hc : c.WellFormedFor own) :
    (parsed.content c).WellFormedFor own := by
  refine ⟨?_, h.calls⟩
  intro c' hmem
  rcases List.mem_append.mp hmem with hmem | hmem
  · exact h.contents c' hmem
  · rwa [List.mem_singleton.mp hmem]

theorem Parsed.WellFormedFor.call (h : parsed.WellFormedFor own) {call : ToolCall} (hcall : call.WellFormedFor own) :
    (parsed.call call).WellFormedFor own := by
  refine ⟨h.contents, ?_⟩
  intro call' hmem
  rcases List.mem_append.mp hmem with hmem | hmem
  · exact h.calls call' hmem
  · rwa [List.mem_singleton.mp hmem]

theorem Content.wellFormedFor {c : Content} (h : c.type = .extension → c.provider = own.toString) :
    c.WellFormedFor own := by
  have hv := c.valid
  refine ⟨?_, ?_, ?_⟩
  · intro hs
    rw [hs] at hv
    cases ht : c.type <;> simp_all [wellFormed]
  · intro hs
    rw [hs] at hv
    cases ht : c.type <;> simp_all [wellFormed]
  · intro ht
    refine ⟨h ht, ?_⟩
    simp only [wellFormed, Bool.and_eq_true] at hv
    exact hv.1.2

theorem Content.text_wellFormedFor (s : String) : (Content.text s).WellFormedFor own :=
  Content.wellFormedFor fun h => by cases h

theorem textContents_wellFormedFor (s : String) : ∀ c ∈ Message.textContents s, c.WellFormedFor own := by
  unfold Message.textContents
  intro c hc
  by_cases hempty : s = ""
  · rw [if_pos hempty] at hc
    cases hc
  · rw [if_neg hempty] at hc
    rw [List.mem_singleton.mp hc]
    exact Content.text_wellFormedFor s

end

theorem parseToolArguments_invalid {json : JsonText} {raw : String} (h : (parseToolArguments json raw).2 = false) :
    (parseToolArguments json raw).1 = .emptyObject := by
  unfold parseToolArguments at h ⊢
  cases hparse : json.parse raw with
  | none => rfl
  | some value =>
    rw [hparse] at h
    cases h

/-! ## The checks, and what they allow -/

section
variable {P : Exc → Prop} {object data options : JsonValue} {key : String} {e : Exc}

theorem ends_checkMember {valid : JsonValue → Bool} (h : P e) :
    Ends P (fun _ => ∀ v, object.find? key = some v → valid v = true) (checkMember object key valid e) := by
  have hthrows : Throws P (checkMember object key valid e) := throws_throwIf h
  exact hthrows.ends fun _ hok v hv => checkMember_ok hok hv

theorem ends_requireString (h : P e) :
    Ends P (fun s => object.find? key = some (.string s)) (requireString object key e) := by
  unfold requireString
  split
  · next s hs => exact hs
  · exact h

theorem ends_requireArray (h : P e) :
    Ends P (fun xs => object.find? key = some (.array xs)) (requireArray object key e) := by
  unfold requireArray
  split
  · next xs hxs => exact hxs
  · exact h

theorem Content.ends_extension (own : Provider) (hdata : data.isObject = true) :
    Ends P (Content.WellFormedFor own) (Content.extension own.toString data) := by
  unfold Content.extension
  rw [dif_neg (by cases own <;> decide), dif_pos hdata]
  exact Content.wellFormedFor fun _ => rfl

theorem Content.ends_ofBytes (own : Provider) {media : Content.Media} {bytes : List UInt8} {mediaType filename : String}
    (hbytes : bytes ≠ []) (hmedia : mediaType ≠ "") (hoptions : options.isObject = true) :
    Ends P (Content.WellFormedFor own) (Content.ofBytes media bytes mediaType filename options) := by
  unfold Content.ofBytes
  rw [dif_neg hbytes, dif_neg hmedia, dif_pos hoptions]
  exact Content.wellFormedFor fun h => absurd h (Content.media_ne_extension media)

theorem Content.ends_ofUrl (own : Provider) {media : Content.Media} {url mediaType filename : String}
    (hurl : url ≠ "") (hoptions : options.isObject = true) :
    Ends P (Content.WellFormedFor own) (Content.ofUrl media url mediaType filename options) := by
  unfold Content.ofUrl
  rw [dif_neg hurl, dif_pos hoptions]
  exact Content.wellFormedFor fun h => absurd h (Content.media_ne_extension media)

end

theorem errorOf_provider {own : Provider} (message : String) (status : Int) (code requestId : String) :
    ErrorOf own (.provider message own status code requestId) := ⟨message, status, code, requestId, rfl⟩

theorem ends_responseBody {json : JsonText} {response : HttpResponse} {own : Provider} {headerName idField : String}
    {httpError : String → Exc} (hhttp : ∀ requestId, ErrorOf own (httpError requestId)) :
    Ends (ErrorOf own) (fun _ => True) (responseBody json response own headerName idField httpError) := by
  unfold responseBody
  refine (ends_throwIf (hhttp _)).bind fun _ _ => ?_
  have hparse : Ends (ErrorOf own) (fun _ => True)
      (parseResponseJson json response own (responseRequestId response [headerName])) := by
    unfold parseResponseJson
    split
    · exact True.intro
    · exact errorOf_provider _ _ _ _
  exact hparse.bind fun _ _ => True.intro

/-! ## OpenAI -/

namespace OpenAIClient

section
variable {json : JsonText} {malformed : String → Exc} {malformedImage : Exc} {parsed : Parsed} {part item : JsonValue}

theorem imageMediaType_ne (bytes : List UInt8) : imageMediaType bytes ≠ "" := by
  unfold imageMediaType
  split
  · decide
  · split
    · decide
    · split
      · decide
      · decide

variable (hmalformed : ∀ message, ErrorOf .openai (malformed message))
include hmalformed

theorem parsePart_ends (hparsed : parsed.WellFormedFor .openai) :
    Ends (ErrorOf .openai) (Parsed.WellFormedFor .openai) (parsePart malformed parsed part) := by
  unfold parsePart
  refine (ends_throwIf (hmalformed _)).bind fun _ hobject => ?_
  refine (ends_checkMember (hmalformed _)).bind fun _ _ => ?_
  refine ends_ite (fun _ => ?_) fun _ => ends_ite (fun _ => ?_) fun _ => ?_
  · refine (ends_requireString (hmalformed _)).bind fun text _ => ?_
    exact hparsed.content (Content.text_wellFormedFor text)
  · refine (ends_requireString (hmalformed _)).bind fun refusal _ => ?_
    have hcontent := hparsed.content (Content.text_wellFormedFor refusal)
    exact ⟨hcontent.contents, hcontent.calls⟩
  · have hdata : part.isObject = true := by simpa using hobject
    refine (Content.ends_extension .openai hdata).bind fun c hc => ?_
    exact hparsed.content hc

theorem parseImage_ends (himage : ErrorOf .openai malformedImage) (hparsed : parsed.WellFormedFor .openai) :
    Ends (ErrorOf .openai) (Parsed.WellFormedFor .openai) (parseImage malformed malformedImage parsed item) := by
  unfold parseImage
  refine (ends_requireString (hmalformed _)).bind fun encoded _ => ?_
  split
  · exact himage
  · exact himage
  · next bytes hbytes _ =>
    refine (Content.ends_ofBytes .openai hbytes (imageMediaType_ne bytes) rfl).bind fun c hc => ?_
    exact hparsed.content hc

theorem parseFunctionCall_ends (hparsed : parsed.WellFormedFor .openai) :
    Ends (ErrorOf .openai) (Parsed.WellFormedFor .openai) (parseFunctionCall json malformed parsed item) := by
  unfold parseFunctionCall
  dsimp only
  split
  · next id name rawArguments _ _ _ =>
    refine (ends_throwIf (hmalformed _)).bind fun _ hne => ?_
    refine (ends_checkMember (hmalformed _)).bind fun _ _ => ?_
    have hne := not_or.mp hne
    apply hparsed.call
    exact ⟨hne.1, hne.2, parseToolArguments_invalid, fun hown => by simp at hown⟩
  · exact hmalformed _

theorem parseItem_ends (himage : ErrorOf .openai malformedImage) (hparsed : parsed.WellFormedFor .openai) :
    Ends (ErrorOf .openai) (Parsed.WellFormedFor .openai) (parseItem json malformed malformedImage parsed item) := by
  unfold parseItem
  refine (ends_throwIf (hmalformed _)).bind fun _ _ => ?_
  refine (ends_checkMember (hmalformed _)).bind fun _ _ => ?_
  refine ends_ite (fun _ => ?_) fun _ => ends_ite (fun _ => ?_) fun _ => ends_ite (fun _ => ?_) fun _ => hparsed
  · refine (ends_requireArray (hmalformed _)).bind fun parts _ => ?_
    exact ends_foldlM (fun _ _ hparsed => parsePart_ends hmalformed hparsed) parts hparsed
  · exact parseImage_ends hmalformed himage hparsed
  · exact parseFunctionCall_ends hmalformed hparsed

end

theorem orError_wellFormedFor {body : JsonValue} {contents : List Content} {own : Provider}
    (h : ∀ c ∈ contents, c.WellFormedFor own) : ∀ c ∈ orError body contents, c.WellFormedFor own := by
  unfold orError
  by_cases hnil : contents = []
  · rw [if_pos hnil]
    exact textContents_wellFormedFor _
  · rw [if_neg hnil]
    exact h

theorem parseResponse_ends (json : JsonText) (response : HttpResponse) :
    Ends (ErrorOf .openai) (AIResponse.WellFormedFor .openai) (parseResponse json response) := by
  unfold parseResponse
  refine (ends_responseBody fun _ => errorOf_provider _ _ _ _).bind fun (body, requestId) _ => ?_
  have hmalformed : ∀ message, ErrorOf .openai (malformedResponse .openai response requestId message) :=
    fun _ => errorOf_provider _ _ _ _
  refine (ends_requireArray (hmalformed _)).bind fun output _ => ?_
  refine (ends_foldlM (fun _ _ => parseItem_ends hmalformed (errorOf_provider _ _ _ _)) output .empty).bind ?_
  intro parsed hparsed
  exact ⟨rfl, orError_wellFormedFor hparsed.contents, hparsed.calls⟩

end OpenAIClient

/-! ## Anthropic -/

namespace AnthropicClient

section
variable {json : JsonText} {malformed : String → Exc} {parsed : Parsed} {block : JsonValue}
  (hmalformed : ∀ message, ErrorOf .anthropic (malformed message))
include hmalformed

theorem parseToolUse_ends (hparsed : parsed.WellFormedFor .anthropic) :
    Ends (ErrorOf .anthropic) (Parsed.WellFormedFor .anthropic) (parseToolUse json malformed parsed block) := by
  unfold parseToolUse
  dsimp only
  split
  · next id name input _ _ _ =>
    refine (ends_throwIf (hmalformed _)).bind fun _ hne => ?_
    have hne := not_or.mp hne
    apply hparsed.call
    exact ⟨hne.1, hne.2, by simp, fun _ => rfl⟩
  · exact hmalformed _

theorem parseBlock_ends (hparsed : parsed.WellFormedFor .anthropic) :
    Ends (ErrorOf .anthropic) (Parsed.WellFormedFor .anthropic) (parseBlock json malformed parsed block) := by
  unfold parseBlock
  refine (ends_throwIf (hmalformed _)).bind fun _ hobject => ?_
  refine (ends_checkMember (hmalformed _)).bind fun _ _ => ?_
  refine ends_ite (fun _ => ?_) fun _ => ends_ite (fun _ => parseToolUse_ends hmalformed hparsed) fun _ => ?_
  · refine (ends_requireString (hmalformed _)).bind fun text _ => ?_
    exact hparsed.content (Content.text_wellFormedFor text)
  · have hdata : block.isObject = true := by simpa using hobject
    refine (Content.ends_extension .anthropic hdata).bind fun c hc => ?_
    exact hparsed.content hc

end

theorem parseUsage_throws {P : Exc → Prop} {overflow : Exc} (h : P overflow) (usage : JsonValue) :
    Throws P (parseUsage overflow usage) := by
  have hadd : ∀ total count, Throws P (addInput overflow total count) := by
    intro total count
    unfold addInput
    split
    · exact throws_ok _
    · exact throws_ite (throws_error h) (throws_ok _)
  have htotal : Throws P (totalInput overflow usage) := by
    unfold totalInput
    split
    · exact throws_ok _
    · refine throws_bind (hadd _ _) fun _ => ?_
      exact throws_bind (hadd _ _) fun _ => throws_ok _
  unfold parseUsage
  exact throws_bind htotal fun _ => throws_ok _

theorem parseResponse_ends (json : JsonText) (response : HttpResponse) :
    Ends (ErrorOf .anthropic) (AIResponse.WellFormedFor .anthropic) (parseResponse json response) := by
  unfold parseResponse
  refine (ends_responseBody fun _ => errorOf_provider _ _ _ _).bind fun (body, requestId) _ => ?_
  have hmalformed : ∀ message, ErrorOf .anthropic (malformedResponse .anthropic response requestId message) :=
    fun _ => errorOf_provider _ _ _ _
  refine (ends_requireArray (hmalformed _)).bind fun content _ => ?_
  refine (ends_foldlM (fun _ _ => parseBlock_ends hmalformed) content .empty).bind fun parsed hparsed => ?_
  refine ((parseUsage_throws (errorOf_provider _ _ _ _) _).ends fun _ _ => True.intro).bind fun usage _ => ?_
  exact ⟨rfl, hparsed.contents, hparsed.calls⟩

end AnthropicClient

/-! ## Gemini -/

namespace GeminiClient

section
variable {json : JsonText} {request : AIRequest} {malformed : String → Exc} {malformedData malformedFile : Exc}
  {parsed : Parsed} {part data body candidate content : JsonValue}
  (hmalformed : ∀ message, ErrorOf .gemini (malformed message))

section
include hmalformed

theorem parseCandidate_throws {promptBlocked : Bool} :
    Throws (ErrorOf .gemini) (parseCandidate malformed body promptBlocked) := by
  unfold parseCandidate
  split
  · exact throws_ite (throws_ok _) (throws_error (hmalformed _))
  · exact throws_ite (throws_ok _) (throws_error (hmalformed _))
  · exact throws_ok _
  · exact throws_error (hmalformed _)

theorem parseContent_throws : Throws (ErrorOf .gemini) (parseContent malformed candidate) := by
  unfold parseContent
  split
  · exact throws_ok _
  · exact throws_ok _
  · exact throws_error (hmalformed _)

theorem parseParts_throws {needsParts : Bool} :
    Throws (ErrorOf .gemini) (parseParts malformed content needsParts) := by
  unfold parseParts
  split
  · exact throws_ok _
  · exact throws_error (hmalformed _)
  · exact throws_ite (throws_error (hmalformed _)) (throws_ok _)

theorem checkData_throws (key : String) (fields : List String) :
    Throws (ErrorOf .gemini) (checkData malformed part key fields) := by
  unfold checkData
  split
  · exact throws_ok _
  · refine throws_bind (throws_throwIf (hmalformed _)) fun _ => ?_
    exact throws_forM (fun _ => throws_throwIf (hmalformed _)) fields

theorem checkFunctionCall_throws : Throws (ErrorOf .gemini) (checkFunctionCall malformed part) := by
  unfold checkFunctionCall
  split
  · exact throws_ok _
  · refine throws_bind (throws_throwIf (hmalformed _)) fun _ => ?_
    refine throws_bind (throws_throwIf (hmalformed _)) fun _ => ?_
    refine throws_bind (ends_requireString (hmalformed _)).throws fun _ => ?_
    exact throws_bind (throws_throwIf (hmalformed _)) fun _ => throws_throwIf (hmalformed _)

theorem checkPart_ends : Ends (ErrorOf .gemini) (fun _ => CheckedPart part) (checkPart malformed part) := by
  have hthrows : Throws (ErrorOf .gemini) (checkPart malformed part) := by
    unfold checkPart
    refine throws_bind (throws_throwIf (hmalformed _)) fun _ => ?_
    refine throws_bind (throws_throwIf (hmalformed _)) fun _ => ?_
    refine throws_bind (throws_throwIf (hmalformed _)) fun _ => ?_
    refine throws_bind (throws_throwIf (hmalformed _)) fun _ => ?_
    refine throws_bind (checkData_throws hmalformed _ _) fun _ => ?_
    refine throws_bind (checkData_throws hmalformed _ _) fun _ => ?_
    exact throws_bind (checkFunctionCall_throws hmalformed) fun _ => throws_throwIf (hmalformed _)
  exact hthrows.ends fun _ hok => checkPart_ok hok

end

theorem parseInlineData_ends (hdata : ErrorOf .gemini malformedData) :
    Ends (ErrorOf .gemini) (Content.WellFormedFor .gemini) (parseInlineData malformedData data) := by
  unfold parseInlineData
  dsimp only
  split
  · exact hdata
  · exact hdata
  · next bytes hbytes _ =>
    exact ends_ite (fun _ => hdata) fun hmedia => Content.ends_ofBytes .gemini hbytes hmedia rfl

theorem parseFileData_ends (hfile : ErrorOf .gemini malformedFile) :
    Ends (ErrorOf .gemini) (Content.WellFormedFor .gemini) (parseFileData malformedFile data) := by
  unfold parseFileData
  exact ends_ite (fun _ => hfile) fun huri => Content.ends_ofUrl .gemini huri rfl

theorem syntheticId_ne (request : AIRequest) (callIndex : Nat) : syntheticId request callIndex ≠ "" := by
  unfold syntheticId
  simp

theorem parseFunctionCall_wellFormedFor (json : JsonText) (request : AIRequest) (callIndex : Nat) (part : JsonValue)
    {call : JsonValue} (h : CheckedCall call) :
    (parseFunctionCall json request callIndex part call).WellFormedFor .gemini := by
  refine ⟨?_, h.name, by simp [parseFunctionCall], fun _ => h.args⟩
  unfold parseFunctionCall
  dsimp only
  by_cases hid : call.stringField "id" = ""
  · rw [if_pos hid]
    exact syntheticId_ne request callIndex
  · rw [if_neg hid]
    exact hid

include hmalformed

theorem parsePart_ends (hdata : ErrorOf .gemini malformedData) (hfile : ErrorOf .gemini malformedFile)
    (hparsed : parsed.WellFormedFor .gemini) :
    Ends (ErrorOf .gemini) (Parsed.WellFormedFor .gemini)
      (parsePart json request malformed malformedData malformedFile parsed part) := by
  unfold parsePart
  refine (checkPart_ends hmalformed).bind fun _ hchecked => ?_
  have hextension : Ends (ErrorOf .gemini) (Parsed.WellFormedFor .gemini)
      (Content.extension "gemini" part >>= fun c => pure (parsed.content c)) :=
    (Content.ends_extension .gemini hchecked.object).bind fun c hc => hparsed.content hc
  split
  · next text htext =>
    refine ends_ite (fun _ => hextension) fun _ => ?_
    have hstring := hchecked.text text htext
    cases text with
    | string s => exact hparsed.content (Content.text_wellFormedFor s)
    | _ => cases hstring
  · exact (parseInlineData_ends hdata).bind fun c hc => hparsed.content hc
  · exact (parseFileData_ends hfile).bind fun c hc => hparsed.content hc
  · next call hcall _ _ _ =>
    exact hparsed.call (parseFunctionCall_wellFormedFor json request _ part (hchecked.call call hcall))
  · exact hextension

end

theorem parseResponse_ends (json : JsonText) (request : AIRequest) (response : HttpResponse) :
    Ends (ErrorOf .gemini) (AIResponse.WellFormedFor .gemini) (parseResponse json request response) := by
  unfold parseResponse
  refine (ends_responseBody fun _ => errorOf_provider _ _ _ _).bind fun (body, requestId) _ => ?_
  have hmalformed : ∀ message, ErrorOf .gemini (malformedResponse .gemini response requestId message) :=
    fun _ => errorOf_provider _ _ _ _
  refine (parseCandidate_throws hmalformed).ends (fun _ _ => True.intro) |>.bind fun candidate _ => ?_
  refine (parseContent_throws hmalformed).ends (fun _ _ => True.intro) |>.bind fun content _ => ?_
  refine (parseParts_throws hmalformed).ends (fun _ _ => True.intro) |>.bind fun parts _ => ?_
  refine (ends_foldlM (fun _ _ => parsePart_ends hmalformed (errorOf_provider _ _ _ _) (errorOf_provider _ _ _ _)) parts
    .empty).bind fun parsed hparsed => ?_
  exact ⟨rfl, hparsed.contents, hparsed.calls⟩

end GeminiClient

/-! ## OpenAI-compatible -/

namespace CompatibleClient

section
variable {json : JsonText} {request : AIRequest} {malformed : String → Exc} {unsupported : String → Exc}
  {malformedAudio invalid : Exc} {part native function : JsonValue} {contents : List Content} {calls : List ToolCall}

theorem parseFunction_ends (hinvalid : ErrorOf .openaiCompatible invalid) :
    Ends (ErrorOf .openaiCompatible) (fun f => f.1 ≠ "") (parseFunction function invalid) := by
  unfold parseFunction
  refine (ends_requireString hinvalid).bind fun name _ => ?_
  refine (ends_throwIf hinvalid).bind fun _ hname => ?_
  exact (ends_requireString hinvalid).bind fun rawArguments _ => hname

theorem makeCall_wellFormedFor {id name : String} (json : JsonText) (rawArguments : String)
    (providerMetadata : JsonValue) (hid : id ≠ "") (hname : name ≠ "") :
    (makeCall json id name rawArguments providerMetadata).WellFormedFor .openaiCompatible :=
  ⟨hid, hname, parseToolArguments_invalid, by simp⟩

theorem legacyId_ne (request : AIRequest) : legacyId request ≠ "" := by
  unfold legacyId
  simp

theorem withRefusal_wellFormedFor (h : ∀ c ∈ contents, c.WellFormedFor .openaiCompatible) :
    ∀ c ∈ withRefusal native contents, c.WellFormedFor .openaiCompatible := by
  unfold withRefusal
  split
  · next refusal _ =>
    intro c hc
    rw [List.mem_singleton.mp hc]
    exact Content.text_wellFormedFor refusal
  · exact h

variable (hmalformed : ∀ message, ErrorOf .openaiCompatible (malformed message))
include hmalformed

theorem parseImageUrl_ends :
    Ends (ErrorOf .openaiCompatible) (Content.WellFormedFor .openaiCompatible) (parseImageUrl malformed part) := by
  unfold parseImageUrl
  split
  · refine (ends_requireString (hmalformed _)).bind fun url _ => ?_
    exact (ends_throwIf (hmalformed _)).bind fun _ hurl => Content.ends_ofUrl .openaiCompatible hurl rfl
  · exact hmalformed _

theorem parsePart_ends :
    Ends (ErrorOf .openaiCompatible) (Content.WellFormedFor .openaiCompatible) (parsePart malformed part) := by
  unfold parsePart
  refine (ends_throwIf (hmalformed _)).bind fun _ hobject => ?_
  refine (ends_checkMember (hmalformed _)).bind fun _ _ => ?_
  refine ends_ite (fun _ => ?_) fun _ => ends_ite (fun _ => parseImageUrl_ends hmalformed) fun _ => ?_
  · exact (ends_requireString (hmalformed _)).bind fun text _ => Content.text_wellFormedFor text
  · have hdata : part.isObject = true := by simpa using hobject
    exact Content.ends_extension .openaiCompatible hdata

theorem parseContents_ends :
    Ends (ErrorOf .openaiCompatible) (fun cs => ∀ c ∈ cs, c.WellFormedFor .openaiCompatible)
      (parseContents malformed native) := by
  unfold parseContents
  split
  · exact fun c hc => absurd hc List.not_mem_nil
  · exact fun c hc => absurd hc List.not_mem_nil
  · next text _ =>
    intro c hc
    rw [List.mem_singleton.mp hc]
    exact Content.text_wellFormedFor text
  · exact ends_mapM (fun _ => parsePart_ends hmalformed) _
  · exact hmalformed _

theorem parseToolCall_ends (hunsupported : ∀ type, ErrorOf .openaiCompatible (unsupported type)) :
    Ends (ErrorOf .openaiCompatible) (ToolCall.WellFormedFor .openaiCompatible)
      (parseToolCall json malformed unsupported native) := by
  unfold parseToolCall
  refine (ends_throwIf (hmalformed _)).bind fun _ _ => ?_
  dsimp only
  split
  · refine (ends_throwIf (hmalformed _)).bind fun _ hid => ?_
    refine (ends_throwIf (hunsupported _)).bind fun _ _ => ?_
    refine (parseFunction_ends (hmalformed _)).bind fun (name, rawArguments) hname => ?_
    exact makeCall_wellFormedFor json rawArguments native hid hname
  · exact hmalformed _

theorem parseToolCalls_ends (hunsupported : ∀ type, ErrorOf .openaiCompatible (unsupported type)) :
    Ends (ErrorOf .openaiCompatible) (fun calls => ∀ call ∈ calls, call.WellFormedFor .openaiCompatible)
      (parseToolCalls json malformed unsupported native) := by
  unfold parseToolCalls
  split
  · exact fun call hcall => absurd hcall List.not_mem_nil
  · exact fun call hcall => absurd hcall List.not_mem_nil
  · exact ends_mapM (fun _ => parseToolCall_ends hmalformed hunsupported) _
  · exact hmalformed _

theorem withLegacyCall_ends (hcalls : ∀ call ∈ calls, call.WellFormedFor .openaiCompatible) :
    Ends (ErrorOf .openaiCompatible) (fun calls => ∀ call ∈ calls, call.WellFormedFor .openaiCompatible)
      (withLegacyCall json malformed request native calls) := by
  unfold withLegacyCall
  split
  · exact hcalls
  · exact hcalls
  · refine (parseFunction_ends (hmalformed _)).bind fun (name, rawArguments) hname => ?_
    show ∀ call ∈ (if calls = [] then _ else calls), _
    by_cases hnil : calls = []
    · rw [if_pos hnil]
      intro call hcall
      rw [List.mem_singleton.mp hcall]
      exact makeCall_wellFormedFor json rawArguments _ (legacyId_ne request) hname
    · rw [if_neg hnil]
      exact hcalls
  · exact hmalformed _

theorem withAudio_ends (haudio : ErrorOf .openaiCompatible malformedAudio)
    (hcontents : ∀ c ∈ contents, c.WellFormedFor .openaiCompatible) :
    Ends (ErrorOf .openaiCompatible) (fun cs => ∀ c ∈ cs, c.WellFormedFor .openaiCompatible)
      (withAudio malformed malformedAudio native contents) := by
  unfold withAudio
  split
  · exact hcontents
  · exact hcontents
  · next m _ =>
    refine (ends_requireString (hmalformed _)).bind fun id _ => ?_
    refine (ends_throwIf (hmalformed _)).bind fun _ _ => ?_
    refine (ends_requireString (hmalformed _)).bind fun data _ => ?_
    refine (ends_checkMember (hmalformed _)).bind fun _ _ => ?_
    refine (ends_checkMember (hmalformed _)).bind fun _ _ => ?_
    split
    · exact haudio
    · exact haudio
    · next bytes hbytes _ =>
      refine (Content.ends_ofBytes .openaiCompatible hbytes (by decide) rfl).bind fun content hcontent => ?_
      intro c hc
      rcases List.mem_append.mp hc with hc | hc
      · rcases List.mem_append.mp hc with hc | hc
        · exact hcontents c hc
        · by_cases hnil : contents = []
          · rw [if_pos hnil] at hc
            exact textContents_wellFormedFor _ c hc
          · rw [if_neg hnil] at hc
            cases hc
      · rwa [List.mem_singleton.mp hc]
  · exact hmalformed _

end

theorem parseResponse_ends (json : JsonText) (request : AIRequest) (response : HttpResponse) :
    Ends (ErrorOf .openaiCompatible) (AIResponse.WellFormedFor .openaiCompatible)
      (parseResponse json request response) := by
  unfold parseResponse
  refine (ends_responseBody fun _ => errorOf_provider _ _ _ _).bind fun (body, requestId) _ => ?_
  have hmalformed : ∀ message,
      ErrorOf .openaiCompatible (malformedResponse .openaiCompatible response requestId message) :=
    fun _ => errorOf_provider _ _ _ _
  have hchoice : Throws (ErrorOf .openaiCompatible)
      (parseChoice (malformedResponse .openaiCompatible response requestId) body) := by
    unfold parseChoice
    split
    · exact throws_ok _
    · exact throws_error (hmalformed _)
  refine (hchoice.ends fun _ _ => True.intro).bind fun choice _ => ?_
  have hmessage : Throws (ErrorOf .openaiCompatible)
      (parseMessage (malformedResponse .openaiCompatible response requestId) choice) := by
    unfold parseMessage
    split
    · exact throws_ok _
    · exact throws_error (hmalformed _)
  refine (hmessage.ends fun _ _ => True.intro).bind fun native _ => ?_
  refine (parseContents_ends hmalformed).bind fun contents hcontents => ?_
  refine (parseToolCalls_ends hmalformed fun _ => errorOf_provider _ _ _ _).bind fun calls hcalls => ?_
  refine (withLegacyCall_ends hmalformed hcalls).bind fun calls hcalls => ?_
  refine (withAudio_ends hmalformed (errorOf_provider _ _ _ _) (withRefusal_wellFormedFor hcontents)).bind ?_
  intro contents hcontents
  exact ⟨rfl, hcontents, hcalls⟩

end CompatibleClient

/-! ## The check of the call ids -/

theorem AIResponse.WellFormedFor.named {own : Provider} {r : AIResponse} (h : r.WellFormedFor own) :
    Named r.message.toolCalls :=
  fun call hcall => ⟨(h.calls call hcall).id, (h.calls call hcall).name⟩

theorem AIClient.checkCallIds_throws (client : AIClient) {requestId : String} :
    ∀ {calls : List ToolCall}, Named calls → ∀ callIds, Throws (fun e => ∃ call ∈ calls, e = client.protocolError
      ("provider returned duplicate tool call id: " ++ call.id) "" requestId) (client.checkCallIds requestId callIds calls)
  | [], _, _ => throws_ok ()
  | call :: calls, hnamed, callIds => by
    rw [checkCallIds, if_neg (not_or.mpr (hnamed call (List.mem_cons_self ..)))]
    have hrest : Named calls := fun call hcall => hnamed call (List.mem_cons_of_mem _ hcall)
    by_cases hseen : call.id ∈ callIds
    · rw [if_pos hseen]
      exact throws_error ⟨call, List.mem_cons_self .., rfl⟩
    · rw [if_neg hseen]
      intro e he
      obtain ⟨call', hcall', heq⟩ := client.checkCallIds_throws hrest _ e he
      exact ⟨call', List.mem_cons_of_mem _ hcall', heq⟩

theorem duplicate_ne_missing (id : String) :
    "provider returned duplicate tool call id: " ++ id ≠ "provider returned a tool call without id or name" := by
  intro h
  have hchars := congrArg (fun s => s.toList.take 19) h
  simp [String.toList_append] at hchars

theorem Adapter.parseResponse_ends (json : JsonText) (request : AIRequest) (adapter : Adapter)
    (response : HttpResponse) : Ends (ErrorOf adapter.provider) (AIResponse.WellFormedFor adapter.provider)
      (adapter.parseResponse json request response) := by
  cases adapter with
  | openai impl => exact OpenAIClient.parseResponse_ends json response
  | anthropic impl => exact AnthropicClient.parseResponse_ends json response
  | gemini impl => exact GeminiClient.parseResponse_ends json request response
  | compatible impl => exact CompatibleClient.parseResponse_ends json request response

/-- Every parser ends with a `ProviderError` of its own or a well-formed response, so that the generation loop
never sees a built-in client's call without id or name. -/
theorem parsers_end_safely (json : JsonText) (request : AIRequest) :
    (∀ response, Ends (ErrorOf .openai) (AIResponse.WellFormedFor .openai) (OpenAIClient.parseResponse json response)) ∧
    (∀ response, Ends (ErrorOf .anthropic) (AIResponse.WellFormedFor .anthropic)
      (AnthropicClient.parseResponse json response)) ∧
    (∀ response, Ends (ErrorOf .gemini) (AIResponse.WellFormedFor .gemini)
      (GeminiClient.parseResponse json request response)) ∧
    (∀ response, Ends (ErrorOf .openaiCompatible) (AIResponse.WellFormedFor .openaiCompatible)
      (CompatibleClient.parseResponse json request response)) ∧
    ∀ (adapter : Adapter) send r, adapter.generateOnce json send request = .ok r →
      ∀ (client : AIClient) requestId, client.checkCallIds requestId [] r.message.toolCalls ≠
        .error (client.protocolError "provider returned a tool call without id or name" "" requestId) := by
  refine ⟨OpenAIClient.parseResponse_ends json, AnthropicClient.parseResponse_ends json,
    GeminiClient.parseResponse_ends json request, CompatibleClient.parseResponse_ends json request, ?_⟩
  intro adapter send r h client requestId herror
  obtain ⟨response, hparsed⟩ := Adapter.generateOnce_ok h
  have hformed := (adapter.parseResponse_ends json request response).returned hparsed
  obtain ⟨call, _, heq⟩ := client.checkCallIds_throws hformed.named [] _ herror
  exact duplicate_ne_missing call.id (Exc.provider.inj heq).1.symm

end NeuralPlus
