import NeuralPlus.ReplaySound
import NeuralPlus.Transcript

/-!
# Which transcripts an adapter can encode

An encoder looks at each message alone, and rejects contents of a kind its
provider has no part for. Input and tool results are appended before the next
request is built, so one content that is not supported stays in the transcript.
-/

namespace NeuralPlus

open Fallible

/-! ## The contents each adapter supports -/

namespace OpenAIClient

def Supports (c : Content) : Prop :=
  c.type = .text ∨ c.type = .image ∨ c.type = .file ∨ c.type = .extension ∧ c.provider = "openai"

theorem inputPart_returns (c : Content) : Returns (inputPart c) ↔ Supports c := by
  unfold inputPart Supports
  obtain ⟨ht, hs⟩ | ⟨ht, hs⟩ | ⟨ht | ht | ht, hs | hs⟩ := c.source_cases <;> rw [ht, hs]
  case inr.inl =>
    by_cases hp : c.provider = "openai"
    · simp [hp, returns_ok]
    · simp [hp, not_returns_error]
  all_goals simp [returns_ok, not_returns_error]

theorem messageContent_returns (m : Message) : Returns (messageContent m) ↔ ∀ c ∈ m.contents, Supports c := by
  unfold messageContent
  simp only [pure_eq_ok, returns_bind_ok, mapM_returns, inputPart_returns]

theorem toolOutput_returns (m : Message) : Returns (toolOutput m) ↔ ∀ c ∈ m.contents, Supports c := by
  rw [← messageContent_returns]
  unfold toolOutput
  split
  · next hnil => simp [messageContent_returns, hnil, returns_ok]
  · next c hone =>
    by_cases ht : c.type = .text ∧ c.source = .value
    · rw [if_pos ht, messageContent_returns, hone]
      simp [Supports, ht.1, returns_ok]
    · rw [if_neg ht]
  · exact Iff.rfl

/-- Whether a message can be encoded does not depend on the messages before it. -/
theorem appendHistory_returns (entries : List JsonValue) (m : Message) :
    Returns (appendHistory entries m) ↔ Returns (appendHistory [] m) := by
  unfold appendHistory
  cases m.role with
  | assistant =>
    cases nativeOutput m with
    | some output => exact ⟨fun _ => returns_ok _, fun _ => returns_ok _⟩
    | none => simp only [pure_eq_ok, returns_bind_ok]
  | _ => simp only [pure_eq_ok, returns_bind_ok]

theorem appendHistory_user {m : Message} (hrole : m.role = .user) :
    Returns (appendHistory [] m) ↔ ∀ c ∈ m.contents, Supports c := by
  unfold appendHistory roleMessage
  rw [hrole]
  simp only [pure_eq_ok, returns_bind_ok, messageContent_returns]

theorem appendHistory_tool {m : Message} (hrole : m.role = .tool) :
    Returns (appendHistory [] m) ↔ ∀ c ∈ m.contents, Supports c := by
  unfold appendHistory
  rw [hrole]
  simp only [pure_eq_ok, returns_bind_ok, toolOutput_returns]

end OpenAIClient

namespace AnthropicClient

def Supports (c : Content) : Prop :=
  c.type = .text ∨ c.type = .image ∨ c.type = .file ∧ (c.source = .url ∨ c.mediaType = "application/pdf") ∨
    c.type = .extension ∧ c.provider = "anthropic"

theorem contentPart_returns (c : Content) : Returns (contentPart c) ↔ Supports c := by
  unfold contentPart Supports
  obtain ⟨ht, hs⟩ | ⟨ht, hs⟩ | ⟨ht | ht | ht, hs | hs⟩ := c.source_cases <;> rw [ht, hs]
  case inr.inl =>
    by_cases hp : c.provider = "anthropic"
    · simp [hp, returns_ok]
    · simp [hp, not_returns_error]
  case inr.inr.inr.inr.inr =>
    by_cases hm : c.mediaType = "application/pdf"
    · simp [hm, returns_ok]
    · simp [hm, not_returns_error]
  all_goals simp [returns_ok, not_returns_error]

theorem blocks_returns (m : Message) : Returns (blocks m) ↔ ∀ c ∈ m.contents, Supports c := by
  unfold blocks
  simp only [mapM_returns, contentPart_returns]

theorem appendHistory_returns (entries : List JsonValue) (m : Message) :
    Returns (appendHistory entries m) ↔ Returns (appendHistory [] m) := by
  rw [appendHistory_eq, appendHistory_eq]
  cases turnOf m <;> simp [Except.map, returns_ok, not_returns_error]

theorem appendHistory_user {m : Message} (hrole : m.role = .user) :
    Returns (appendHistory [] m) ↔ ∀ c ∈ m.contents, Supports c := by
  unfold appendHistory
  rw [hrole]
  simp only [pure_eq_ok, returns_bind_ok, blocks_returns]

theorem appendHistory_tool {m : Message} (hrole : m.role = .tool) :
    Returns (appendHistory [] m) ↔ ∀ c ∈ m.contents, Supports c := by
  unfold appendHistory
  rw [hrole]
  simp only [pure_eq_ok, returns_bind_ok, blocks_returns]

end AnthropicClient

namespace GeminiClient

def IsMedia (c : Content) : Prop := c.type = .image ∨ c.type = .audio ∨ c.type = .file

def Supports (c : Content) : Prop :=
  c.type = .text ∨ IsMedia c ∧ (c.source = .bytes ∨ isGeminiFile c.url = true ∨ isGoogleStorage c.url = true) ∨
    c.type = .extension ∧ c.provider = "gemini"

def SupportsResult (c : Content) : Prop :=
  c.type = .text ∨ IsMedia c ∧ c.source = .bytes ∨ c.type = .extension ∧ c.provider = "gemini"

theorem part_returns (c : Content) : Returns (part c) ↔ Supports c := by
  unfold part Supports IsMedia
  obtain ⟨ht, hs⟩ | ⟨ht, hs⟩ | ⟨ht | ht | ht, hs | hs⟩ := c.source_cases <;> rw [ht, hs]
  case inr.inl =>
    by_cases hp : c.provider = "gemini"
    · simp [hp, returns_ok]
    · simp [hp, not_returns_error]
  all_goals
    by_cases hu : isGeminiFile c.url = true ∨ isGoogleStorage c.url = true
    · simp [hu, returns_ok]
    · simp [hu, returns_ok, not_returns_error]

theorem toolResponsePart_returns (c : Content) : Returns (toolResponsePart c) ↔ SupportsResult c := by
  unfold toolResponsePart SupportsResult IsMedia
  obtain ⟨ht, hs⟩ | ⟨ht, hs⟩ | ⟨ht | ht | ht, hs | hs⟩ := c.source_cases <;> rw [ht, hs]
  case inr.inl =>
    by_cases hp : c.provider = "gemini"
    · simp [hp, returns_ok]
    · simp [hp, not_returns_error]
  all_goals simp [returns_ok, not_returns_error]

theorem parts_returns (m : Message) : Returns (parts m) ↔ ∀ c ∈ m.contents, Supports c := by
  unfold parts
  simp only [mapM_returns, part_returns]

theorem toolResponseParts_returns (m : Message) :
    Returns (toolResponseParts m) ↔ ∀ c ∈ m.contents, SupportsResult c := by
  unfold toolResponseParts
  simp only [pure_eq_ok, returns_bind_ok, mapM_returns, toolResponsePart_returns]

theorem appendHistory_returns (json : JsonText) (entries : List JsonValue) (m : Message) :
    Returns (appendHistory json entries m) ↔ Returns (appendHistory json [] m) := by
  rw [appendHistory_eq, appendHistory_eq]
  cases turnOf json m <;> simp [Except.map, returns_ok, not_returns_error]

theorem appendHistory_user (json : JsonText) {m : Message} (hrole : m.role = .user) :
    Returns (appendHistory json [] m) ↔ ∀ c ∈ m.contents, Supports c := by
  unfold appendHistory
  rw [hrole]
  simp only [pure_eq_ok, returns_bind_ok, parts_returns]

theorem appendHistory_tool (json : JsonText) {m : Message} (hrole : m.role = .tool) :
    Returns (appendHistory json [] m) ↔ ∀ c ∈ m.contents, SupportsResult c := by
  unfold appendHistory
  rw [hrole]
  simp only [pure_eq_ok, returns_bind_ok, toolResponseParts_returns]

end GeminiClient

namespace CompatibleClient

def HasAudioFormat (c : Content) : Prop :=
  (∃ format, c.options.find? "format" = some (.string format) ∧ format ≠ "") ∨
    c.options.find? "format" = none ∧
      c.mediaType ∈ ["audio/mpeg", "audio/mp3", "audio/wav", "audio/wave", "audio/x-wav"]

def Supports (c : Content) : Prop :=
  c.type = .text ∨ c.type = .image ∨ c.type = .audio ∧ c.source = .bytes ∧ HasAudioFormat c ∨
    c.type = .file ∧ c.source = .bytes ∨ c.type = .extension ∧ c.provider = "openai_compatible"

theorem chatAudioFormat_returns (c : Content) (provider : Provider) :
    Returns (chatAudioFormat c provider) ↔ HasAudioFormat c := by
  unfold chatAudioFormat HasAudioFormat
  split
  · next format hf =>
    by_cases he : format = ""
    · simp [hf, he, not_returns_error]
    · simp [hf, he, returns_ok]
  · next v hv hf =>
    have hno : ∀ format, v ≠ .string format := fun format h => hv format h
    simp [hf, hno, not_returns_error]
  · next hf =>
    by_cases hmp3 : c.mediaType = "audio/mpeg" ∨ c.mediaType = "audio/mp3"
    · obtain hm | hm := hmp3 <;> simp [hf, hm, returns_ok]
    · by_cases hwav : c.mediaType = "audio/wav" ∨ c.mediaType = "audio/wave" ∨ c.mediaType = "audio/x-wav"
      · rw [if_neg hmp3, if_pos hwav]
        obtain hm | hm | hm := hwav <;> simp [hf, hm, returns_ok]
      · rw [if_neg hmp3, if_neg hwav]
        simp only [not_or] at hmp3 hwav
        simp [hf, hmp3.1, hmp3.2, hwav.1, hwav.2.1, hwav.2.2, not_returns_error]

theorem contentPart_returns (c : Content) : Returns (contentPart c) ↔ Supports c := by
  unfold contentPart Supports
  obtain ⟨ht, hs⟩ | ⟨ht, hs⟩ | ⟨ht | ht | ht, hs | hs⟩ := c.source_cases <;> rw [ht, hs]
  case inr.inl =>
    by_cases hp : c.provider = "openai_compatible"
    · simp [hp, returns_ok]
    · simp [hp, not_returns_error]
  all_goals simp [returns_ok, not_returns_error, chatAudioFormat_returns]

theorem messageContent_returns (m : Message) : Returns (messageContent m) ↔ ∀ c ∈ m.contents, Supports c := by
  have hparts : Returns (contentParts m) ↔ ∀ c ∈ m.contents, Supports c := by
    unfold contentParts
    simp only [pure_eq_ok, returns_bind_ok, mapM_returns, contentPart_returns]
  rw [← hparts]
  unfold messageContent
  split
  · next c hone =>
    by_cases ht : c.type = .text ∧ c.source = .value
    · rw [if_pos ht, hparts, hone]
      simp [Supports, ht.1, returns_ok]
    · rw [if_neg ht]
  · exact Iff.rfl

theorem toolContent_returns (m : Message) : Returns (toolContent m) ↔ ∀ c ∈ m.contents, c.type = .text := by
  have htext : ∀ c : Content, Returns (toolText c) ↔ c.type = .text := by
    intro c
    unfold toolText
    obtain ⟨ht, hs⟩ | ⟨ht, hs⟩ | ⟨ht | ht | ht, hs⟩ := c.source_cases
    · simp [ht, hs, returns_ok]
    all_goals simp [ht, not_returns_error]
  unfold toolContent
  simp only [pure_eq_ok, returns_bind_ok, mapM_returns, htext]

theorem appendHistory_returns (entries : List JsonValue) (m : Message) :
    Returns (appendHistory entries m) ↔ Returns (appendHistory [] m) := by
  unfold appendHistory
  cases m.role with
  | system => exact ⟨fun _ => returns_ok _, fun _ => returns_ok _⟩
  | assistant => cases nativeMessage m <;> simp only [pure_eq_ok, returns_bind_ok]
  | _ => simp only [pure_eq_ok, returns_bind_ok]

theorem appendHistory_user {m : Message} (hrole : m.role = .user) :
    Returns (appendHistory [] m) ↔ ∀ c ∈ m.contents, Supports c := by
  unfold appendHistory roleMessage
  rw [hrole]
  simp only [pure_eq_ok, returns_bind_ok, messageContent_returns]

theorem appendHistory_tool {m : Message} (hrole : m.role = .tool) :
    Returns (appendHistory [] m) ↔ ∀ c ∈ m.contents, c.type = .text := by
  unfold appendHistory
  rw [hrole]
  simp only [pure_eq_ok, returns_bind_ok, toolContent_returns]

end CompatibleClient

/-! ## Messages and transcripts -/

namespace Adapter

def SupportsInput (c : Content) : Adapter → Prop
  | openai _ => OpenAIClient.Supports c
  | anthropic _ => AnthropicClient.Supports c
  | gemini _ => GeminiClient.Supports c
  | compatible _ => CompatibleClient.Supports c

def SupportsResult (c : Content) : Adapter → Prop
  | openai _ => OpenAIClient.Supports c
  | anthropic _ => AnthropicClient.Supports c
  | gemini _ => GeminiClient.SupportsResult c
  | compatible _ => c.type = .text

variable (json : JsonText)

def CanEncode (adapter : Adapter) (messages : List Message) : Prop :=
  Returns (messages.foldlM (adapter.appendHistory json) [])

def CanEncodeMessage (adapter : Adapter) (m : Message) : Prop := Returns (adapter.appendHistory json [] m)

variable {json}

theorem appendHistory_returns (adapter : Adapter) (entries : List JsonValue) (m : Message) :
    Returns (adapter.appendHistory json entries m) ↔ adapter.CanEncodeMessage json m := by
  cases adapter with
  | openai impl => exact OpenAIClient.appendHistory_returns entries m
  | anthropic impl => exact AnthropicClient.appendHistory_returns entries m
  | gemini impl => exact GeminiClient.appendHistory_returns json entries m
  | compatible impl => exact CompatibleClient.appendHistory_returns entries m

theorem canEncode_iff {adapter : Adapter} {messages : List Message} :
    adapter.CanEncode json messages ↔ ∀ m ∈ messages, adapter.CanEncodeMessage json m :=
  foldlM_returns (fun entries m => appendHistory_returns adapter entries m) messages []

theorem canEncode_user {adapter : Adapter} {m : Message} (hrole : m.role = .user) :
    adapter.CanEncodeMessage json m ↔ ∀ c ∈ m.contents, adapter.SupportsInput c := by
  cases adapter with
  | openai impl => exact OpenAIClient.appendHistory_user hrole
  | anthropic impl => exact AnthropicClient.appendHistory_user hrole
  | gemini impl => exact GeminiClient.appendHistory_user json hrole
  | compatible impl => exact CompatibleClient.appendHistory_user hrole

theorem canEncode_tool {adapter : Adapter} {m : Message} (hrole : m.role = .tool) :
    adapter.CanEncodeMessage json m ↔ ∀ c ∈ m.contents, adapter.SupportsResult c := by
  cases adapter with
  | openai impl => exact OpenAIClient.appendHistory_tool hrole
  | anthropic impl => exact AnthropicClient.appendHistory_tool hrole
  | gemini impl => exact GeminiClient.appendHistory_tool json hrole
  | compatible impl => exact CompatibleClient.appendHistory_tool hrole

/-- A response the adapter accepted can always be encoded. -/
theorem canEncode_response {adapter : Adapter} {request : AIRequest} {response : HttpResponse} {r : AIResponse}
    (h : adapter.parseResponse json request response = .ok r) : adapter.CanEncodeMessage json r.message := by
  unfold CanEncodeMessage
  cases adapter with
  | openai impl =>
    obtain ⟨_, output, _, _, hrole, hm⟩ := OpenAIClient.parseResponse_ok h
    exact ⟨_, OpenAIClient.appendHistory_native hrole hm []⟩
  | anthropic impl =>
    obtain ⟨_, content, _, _, _, _, _, hrole, _, hm⟩ := AnthropicClient.parseResponse_ok h
    show Returns (AnthropicClient.appendHistory [] r.message)
    rw [AnthropicClient.appendHistory_eq, AnthropicClient.turnOf_native hrole hm]
    exact ⟨_, rfl⟩
  | gemini impl =>
    obtain ⟨_, content, _, _, hobject, hrole, hm⟩ := GeminiClient.parseResponse_ok h
    show Returns (GeminiClient.appendHistory json [] r.message)
    unfold GeminiClient.appendHistory
    rw [hrole, GeminiClient.nativeContent_of_metadata hobject hm]
    dsimp only
    split <;> exact ⟨_, rfl⟩
  | compatible impl =>
    obtain ⟨_, native, _, _, hobject, hreplay, hrole, hm⟩ := CompatibleClient.parseResponse_ok h
    show Returns (CompatibleClient.appendHistory [] r.message)
    unfold CompatibleClient.appendHistory
    rw [hrole, CompatibleClient.nativeMessage_of_metadata hobject hm]
    dsimp only
    rw [hreplay]
    exact ⟨_, rfl⟩

end Adapter

/-! ## Requests -/

theorem withTools_returns {provider : String} {options body : JsonValue} {declarations : List JsonValue}
    (h : body.find? "tools" = options.find? "tools") :
    Returns (withTools provider body declarations) ↔ Returns (configuredTools provider options) := by
  unfold withTools
  simp only [pure_eq_ok, returns_bind_ok]
  unfold configuredTools
  rw [h]

theorem OpenAIClient.makeRequest_returns (config : OpenAIConfig) (request : AIRequest) :
    Returns (OpenAIClient.makeRequest config request) ↔
      Returns (request.messages.foldlM OpenAIClient.appendHistory []) ∧
      ∃ options, mergedProviderOptions config.model.providerOptions request.options.providerOptions = .ok options ∧
        Returns (configuredTools "OpenAI" options) := by
  unfold OpenAIClient.makeRequest
  apply returns_both
  intro options input
  refine returns_bind_ok.trans (withTools_returns ?_)
  simp (disch := decide) only [find?_setIfSome_ne, JsonValue.find?_set_ne]

theorem AnthropicClient.makeRequest_returns (config : AnthropicConfig) (request : AIRequest) :
    Returns (AnthropicClient.makeRequest config request) ↔
      Returns (request.messages.foldlM AnthropicClient.appendHistory []) ∧
      ∃ options, mergedProviderOptions config.model.providerOptions request.options.providerOptions = .ok options ∧
        Returns (configuredTools "Anthropic" options) := by
  unfold AnthropicClient.makeRequest
  apply returns_both
  intro options messages
  refine returns_bind_ok.trans (withTools_returns ?_)
  split <;> simp (disch := decide) only [JsonValue.find?_set_ne]

theorem GeminiClient.withGenerationConfig_returns {body options : JsonValue} {typed : GenerateOptions}
    (h : body.find? "generationConfig" = options.find? "generationConfig") :
    Returns (GeminiClient.withGenerationConfig body typed) ↔
      Returns (GeminiClient.withGenerationConfig options typed) := by
  unfold GeminiClient.withGenerationConfig
  rw [h]
  dsimp only
  by_cases hnone : typed.maxOutputTokens = none ∧ typed.temperature = none
  · rw [if_pos hnone, if_pos hnone]
    exact ⟨fun _ => returns_ok _, fun _ => returns_ok _⟩
  · rw [if_neg hnone, if_neg hnone]
    by_cases hobject : ((options.find? "generationConfig").getD .emptyObject).isObject = false
    · rw [if_pos hobject, if_pos hobject]
    · rw [if_neg hobject, if_neg hobject]
      exact ⟨fun _ => returns_ok _, fun _ => returns_ok _⟩

theorem GeminiClient.makeRequest_returns (json : JsonText) (config : GeminiConfig) (request : AIRequest) :
    Returns (GeminiClient.makeRequest json config request) ↔
      Returns (request.messages.foldlM (GeminiClient.appendHistory json) []) ∧
      ∃ options, mergedProviderOptions config.model.providerOptions request.options.providerOptions = .ok options ∧
        Returns (configuredTools "Gemini" options) ∧
        Returns (GeminiClient.withGenerationConfig options request.options) := by
  unfold GeminiClient.makeRequest
  apply returns_both
  intro options contents
  constructor
  · intro h
    obtain ⟨body, hw, hg⟩ := returns_bind.mp h
    refine ⟨(withTools_returns ?_).mp ⟨body, hw⟩, (withGenerationConfig_returns ?_).mp hg⟩
    · split <;> simp (disch := decide) only [JsonValue.find?_set_ne]
    · rw [withTools_ok hw (by decide)]
      split <;> simp (disch := decide) only [JsonValue.find?_set_ne]
  · intro ⟨ht, hg⟩
    refine returns_bind_of ((withTools_returns ?_).mpr ht) fun body hw => (withGenerationConfig_returns ?_).mpr hg
    · split <;> simp (disch := decide) only [JsonValue.find?_set_ne]
    · rw [withTools_ok hw (by decide)]
      split <;> simp (disch := decide) only [JsonValue.find?_set_ne]

theorem CompatibleClient.makeRequest_returns (config : OpenAICompatibleConfig) (request : AIRequest) :
    Returns (CompatibleClient.makeRequest config request) ↔
      Returns (request.messages.foldlM CompatibleClient.appendHistory []) ∧
      ∃ options, mergedProviderOptions config.model.providerOptions request.options.providerOptions = .ok options ∧
        Returns (configuredTools "OpenAI-compatible" options) := by
  have hhistory (start : List JsonValue) : Returns (request.messages.foldlM CompatibleClient.appendHistory start) ↔
      Returns (request.messages.foldlM CompatibleClient.appendHistory []) := by
    rw [foldlM_returns CompatibleClient.appendHistory_returns, foldlM_returns CompatibleClient.appendHistory_returns]
  rw [← hhistory]
  unfold CompatibleClient.makeRequest
  apply returns_both
  intro options messages
  refine returns_bind_ok.trans (withTools_returns ?_)
  simp (disch := decide) only [JsonValue.find?_set_ne]

def Adapter.AcceptsOptions (options : GenerateOptions) (adapter : Adapter) : Prop :=
  ∃ merged, mergedProviderOptions adapter.model.providerOptions options.providerOptions = .ok merged ∧
    match adapter with
    | .openai _ => Returns (configuredTools "OpenAI" merged)
    | .anthropic _ => Returns (configuredTools "Anthropic" merged)
    | .gemini _ => Returns (configuredTools "Gemini" merged) ∧ Returns (GeminiClient.withGenerationConfig merged options)
    | .compatible _ => Returns (configuredTools "OpenAI-compatible" merged)

/-- **A request is built exactly when the transcript can be encoded** and the options are accepted. -/
theorem Adapter.makeRequest_returns (json : JsonText) (adapter : Adapter) (request : AIRequest) :
    Returns (adapter.makeRequest json request) ↔
      adapter.CanEncode json request.messages ∧ adapter.AcceptsOptions request.options := by
  cases adapter with
  | openai impl => exact OpenAIClient.makeRequest_returns impl.config request
  | anthropic impl => exact AnthropicClient.makeRequest_returns impl.config request
  | gemini impl => exact GeminiClient.makeRequest_returns json impl.config request
  | compatible impl => exact CompatibleClient.makeRequest_returns impl.config request

/-! ## After a generation -/

namespace BuiltInClient

variable {json : JsonText} {client : BuiltInClient} {call : Call} {opened : Session}

/-- Of what a round appends, only the outputs of its tools can be out of the adapter's reach. -/
theorem canEncode_round {before : List Round} {r : Round} {response : AIResponse}
    (h : client.base.Completed (client.env json call) call.options opened before r response) :
    (∀ m ∈ r.messages, client.adapter.CanEncodeMessage json m) ↔
      ∀ x ∈ r.executions, ∀ c ∈ x.output.contents, client.adapter.SupportsResult c := by
  have hresponse : client.adapter.CanEncodeMessage json response.message := by
    obtain ⟨_, hparse⟩ := Adapter.generateOnce_ok h.sent
    exact Adapter.canEncode_response hparse
  have hnamed : Named (r.executions.map ToolExecution.call) := by
    rw [AIClient.calls_of_executed h.executed]
    exact h.named
  rw [h.messages, List.forall_mem_cons]
  have hanswers := History.forall_iff_of_forall₂ (P := fun x : ToolExecution =>
    ∀ c ∈ x.output.contents, client.adapter.SupportsResult c) (Q := fun m => client.adapter.CanEncodeMessage json m)
    (fun x m ⟨_, hrecords⟩ => by rw [Adapter.canEncode_tool hrecords.role, hrecords.contents])
    (answers_records hnamed)
  exact ⟨fun ⟨_, hm⟩ => hanswers.mpr hm, fun hx => ⟨hresponse, hanswers.mp hx⟩⟩

theorem canEncode_rounds {rounds : List Round}
    (h : History.Holds (fun before r => ∃ response,
      client.base.Completed (client.env json call) call.options opened before r response) rounds) :
    (∀ m ∈ rounds.flatMap Round.messages, client.adapter.CanEncodeMessage json m) ↔
      ∀ r ∈ rounds, ∀ x ∈ r.executions, ∀ c ∈ x.output.contents, client.adapter.SupportsResult c := by
  have hround : ∀ r ∈ rounds, (∀ m ∈ r.messages, client.adapter.CanEncodeMessage json m) ↔
      ∀ x ∈ r.executions, ∀ c ∈ x.output.contents, client.adapter.SupportsResult c := by
    intro r hr
    obtain ⟨before, response, hc⟩ := h.exists_before hr
    exact canEncode_round hc
  constructor
  · intro hm r hr
    exact (hround r hr).mp fun m hmr => hm m (List.mem_flatMap.mpr ⟨r, hr, hmr⟩)
  · intro hx m hm
    obtain ⟨r, hr, hmr⟩ := List.mem_flatMap.mp hm
    exact (hround r hr).mpr (hx r hr) m hmr

/-- **After a generation the transcript can still be encoded exactly if the call was refused**, or the adapter
supports the contents of the input and of every tool output; no response ever stands in the way. -/
theorem canEncode_generate {session : Session} (hsession : client.adapter.CanEncode json session.messages)
    (call : Call) :
    client.adapter.CanEncode json (client.generate json session call).session.messages ↔
      (∃ e, client.base.begin session call.input call.options = .error e) ∨
      (∀ c ∈ call.input.contents, client.adapter.SupportsInput c) ∧
        ∀ r ∈ (client.generate json session call).log.rounds, ∀ x ∈ r.executions, ∀ c ∈ x.output.contents,
          client.adapter.SupportsResult c := by
  have happended {rounds : List Round} (hb : ∃ leased, client.base.begin session call.input call.options = .ok leased)
      (h : History.Holds (fun before r => ∃ response, client.base.Completed (client.env json call) call.options
        (AIClient.opened session call.input) before r response) rounds) :
      client.adapter.CanEncode json (session.messages ++ [call.input] ++ rounds.flatMap Round.messages) ↔
        (∃ e, client.base.begin session call.input call.options = .error e) ∨
        (∀ c ∈ call.input.contents, client.adapter.SupportsInput c) ∧
          ∀ r ∈ rounds, ∀ x ∈ r.executions, ∀ c ∈ x.output.contents, client.adapter.SupportsResult c := by
    obtain ⟨leased, hb⟩ := hb
    have hinput : client.adapter.CanEncodeMessage json call.input ↔ _ :=
      Adapter.canEncode_user (AIClient.begin_ok hb).2.1
    rw [Adapter.canEncode_iff, List.forall_mem_append, List.forall_mem_append, List.forall_mem_singleton, hinput,
      canEncode_rounds h]
    constructor
    · intro ⟨⟨_, hi⟩, hx⟩
      exact .inr ⟨hi, hx⟩
    · intro hor
      rcases hor with ⟨e, he⟩ | ⟨hi, hx⟩
      · rw [hb] at he
        cases he
      · exact ⟨⟨Adapter.canEncode_iff.mp hsession, hi⟩, hx⟩
  unfold BuiltInClient.generate
  cases AIClient.generate_ended client.base (client.env json call) session call.input call.options with
  | refused he _ hsame hrounds =>
    rw [hsame]
    exact ⟨fun _ => .inl ⟨_, he⟩, fun _ => hsession⟩
  | @threw s response e hb hinv _ _ hrounds hmessages =>
    rw [hmessages, hrounds, happended ⟨_, hb⟩ (AIClient.Continued.completed hinv.history), List.forall_mem_append,
      List.forall_mem_singleton]
    -- the failing round executed nothing
    simp
  | returned hb hrounds hlast _ _ _ _ _ _ _ hlog hmessages =>
    rw [hmessages, hlog]
    exact happended ⟨_, hb⟩ ((AIClient.Continued.completed hrounds).concat ⟨_, hlast⟩)

def visionModel : ModelDescriptor := { provider := .gemini, id := "model", capabilities := { imageInput := true } }

def visionClient : BuiltInClient :=
  { base := { AIClient.plainClient with model := visionModel }
    adapter := .gemini { config := { model := visionModel }, endpoint := "", apiKey := "key", valid := rfl }
    model_eq := rfl }

def callWith (input : Message) : Call :=
  { runId := "run-1", send := fun _ _ => .error (.transport "connection reset")
    invoke := fun _ _ _ _ _ => .error .unknown, schedule := fun _ => [], input, options := {} }

def webImage : Content :=
  { type := .image, source := .url, url := "https://example.com/cat.png", valid := by decide }

def lookupBody : JsonValue :=
  candidateBody "model" [.ofMembers [("functionCall", .ofMembers [("args", .emptyObject), ("name", .string "lookup")])]]

def lookupText : JsonText :=
  { parse := fun s => some (if s = "call" then lookupBody else candidateBody "model" [helloPart])
    dump := fun v => if v = lookupBody then "call" else "answer" }

def lookupClient : BuiltInClient :=
  { visionClient with base := { visionClient.base with registry := AIClient.lookupRegistry } }

def lookupCall : Call :=
  { callWith (.userText "hello") with
    send := fun n _ => .ok { status := 200, body := if n = 0 then "call" else "answer" }
    invoke := fun _ _ _ _ _ => .ok (.text "a word") }

def begunSession : Session := { id := "session-1", messages := [.userText "hi", .assistantText "welcome"] }

theorem canEncode_generate_lookup :
    (lookupClient.generate lookupText begunSession lookupCall).session.messages.length = 6 ∧
    lookupClient.adapter.CanEncode lookupText
      (lookupClient.generate lookupText begunSession lookupCall).session.messages := by
  have houtputs : ((lookupClient.generate lookupText begunSession lookupCall).log.rounds.flatMap Round.executions).map
      ToolExecution.output = [.text "a word"] := by decide +kernel
  refine ⟨by decide +kernel, ?_⟩
  have hbegun : lookupClient.adapter.CanEncode lookupText begunSession.messages := ⟨_, rfl⟩
  refine (canEncode_generate hbegun lookupCall).mpr (.inr ⟨?_, ?_⟩)
  · intro c hc
    rw [List.mem_singleton.mp hc]
    exact .inl rfl
  · intro r hr x hx c hc
    have houtput : x.output ∈ [ToolOutput.text "a word"] := by
      rw [← houtputs]
      exact List.mem_map_of_mem (List.mem_flatMap_of_mem hr hx)
    rw [List.mem_singleton.mp houtput] at hc
    rw [List.mem_singleton.mp hc]
    exact .inl rfl

/-- An input that passes `validate_input` leaves a transcript that cannot be encoded. -/
theorem generate_blocks_transcript :
    visionClient.adapter.CanEncode (fixedText .null) [] ∧
    visionClient.base.validateInput (.user [webImage]) = .ok () ∧
    (visionClient.generate (fixedText .null) { id := "session-1" } (callWith (.user [webImage]))).session.messages =
      [.user [webImage]] ∧
    ¬ visionClient.adapter.CanEncode (fixedText .null) [.user [webImage]] :=
  ⟨⟨[], rfl⟩, rfl, rfl, by unfold Adapter.CanEncode; decide⟩

end BuiltInClient

end NeuralPlus
