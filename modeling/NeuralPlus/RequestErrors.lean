import NeuralPlus.Providers

/-!
# What a request that cannot be sent throws

`make_request` runs before the `try` block of `Impl::generate`, so nothing
redacts what it throws: an error of the configuration, or a `ProviderError`
with a fixed text.
-/

namespace NeuralPlus

open Fallible

def historyErrors : Provider → List Exc
  | .anthropic =>
    [.provider "Anthropic file input supports document URLs and inline PDFs" .anthropic 0 "unsupported_document" ""]
  | .gemini =>
    [.provider "Gemini media URLs must be uploaded File API or gs:// URIs; use inline bytes for arbitrary media data"
      .gemini 0 "unsupported_media_url" ""]
  | .openaiCompatible =>
    [.provider "audio format option must be a non-empty string" .openaiCompatible 0 "invalid_audio_format" "",
     .provider "audio input requires MP3/WAV media type or options.format" .openaiCompatible 0
       "unsupported_audio_format" "",
     .provider "OpenAI-compatible audio history is missing its id" .openaiCompatible 0 "malformed_response" ""]
  | _ => []

def Refusal (provider : Provider) (e : Exc) : Prop :=
  e ∈ historyErrors provider ∨ ∃ content, e = unsupportedContent provider content

def RequestError (provider : Provider) (e : Exc) : Prop := (∃ message, e = .configuration message) ∨ Refusal provider e

section
variable {provider : Provider}

theorem requestError_configuration (message : String) : RequestError provider (.configuration message) :=
  .inl ⟨message, rfl⟩

theorem requestError_unsupported (content : Content) : RequestError provider (unsupportedContent provider content) :=
  .inr (.inr ⟨content, rfl⟩)

theorem requestError_history {e : Exc} (h : e ∈ historyErrors provider) : RequestError provider e := .inr (.inl h)

theorem mergedProviderOptions_throws (modelOptions requestOptions : JsonValue) :
    Throws (RequestError provider) (mergedProviderOptions modelOptions requestOptions) := by
  unfold mergedProviderOptions requireObject
  refine throws_bind (throws_throwIf (requestError_configuration _)) fun _ => ?_
  exact throws_bind (throws_throwIf (requestError_configuration _)) fun _ => throws_ok _

theorem withTools_throws (name : String) (body : JsonValue) (declarations : List JsonValue) :
    Throws (RequestError provider) (withTools name body declarations) := by
  have hconfigured : Throws (RequestError provider) (configuredTools name body) := by
    unfold configuredTools
    split
    · exact throws_ok _
    · exact throws_ok _
    · exact throws_error (requestError_configuration _)
  exact throws_bind hconfigured fun _ => throws_ok _

end

/-! ## OpenAI -/

namespace OpenAIClient

theorem inputPart_throws (content : Content) : Throws (RequestError .openai) (inputPart content) := by
  unfold inputPart
  split
  · exact throws_ok _
  · exact throws_ok _
  · exact throws_ok _
  · exact throws_ok _
  · exact throws_ok _
  · exact throws_ite (throws_ok _) (throws_error (requestError_unsupported content))
  · exact throws_error (requestError_unsupported content)

theorem messageContent_throws (message : Message) : Throws (RequestError .openai) (messageContent message) :=
  throws_bind (throws_mapM inputPart_throws message.contents) fun _ => throws_ok _

theorem toolOutput_throws (message : Message) : Throws (RequestError .openai) (toolOutput message) := by
  unfold toolOutput
  split
  · exact throws_ok _
  · exact throws_ite (throws_ok _) (messageContent_throws message)
  · exact messageContent_throws message

theorem roleMessage_throws (role : String) (message : Message) :
    Throws (RequestError .openai) (roleMessage role message) :=
  throws_bind (messageContent_throws message) fun _ => throws_ok _

theorem assistantContent_throws (message : Message) : Throws (RequestError .openai) (assistantContent message) := by
  unfold assistantContent
  refine throws_ite (throws_ok _) ?_
  exact throws_bind (roleMessage_throws "assistant" message) fun _ => throws_ok _

theorem appendHistory_throws (input : List JsonValue) (message : Message) :
    Throws (RequestError .openai) (appendHistory input message) := by
  unfold appendHistory
  split
  · split
    · exact throws_ok _
    · exact throws_bind (assistantContent_throws message) fun _ => throws_ok _
  · exact throws_bind (toolOutput_throws message) fun _ => throws_ok _
  · exact throws_bind (roleMessage_throws "developer" message) fun _ => throws_ok _
  · exact throws_bind (roleMessage_throws "user" message) fun _ => throws_ok _

theorem makeRequest_throws (config : OpenAIConfig) (request : AIRequest) :
    Throws (RequestError .openai) (makeRequest config request) := by
  unfold makeRequest
  refine throws_bind (mergedProviderOptions_throws _ _) fun _ => ?_
  refine throws_bind (throws_foldlM appendHistory_throws request.messages []) fun _ => ?_
  exact throws_bind (withTools_throws "OpenAI" _ _) fun _ => throws_ok _

end OpenAIClient

/-! ## Anthropic -/

namespace AnthropicClient

theorem contentPart_throws (content : Content) : Throws (RequestError .anthropic) (contentPart content) := by
  unfold contentPart
  split
  · exact throws_ok _
  · exact throws_ok _
  · exact throws_ok _
  · exact throws_ok _
  · exact throws_ite (throws_ok _) (throws_error (requestError_history (List.mem_singleton.mpr rfl)))
  · exact throws_ite (throws_ok _) (throws_error (requestError_unsupported content))
  · exact throws_error (requestError_unsupported content)

theorem blocks_throws (message : Message) : Throws (RequestError .anthropic) (blocks message) :=
  throws_mapM contentPart_throws message.contents

theorem appendHistory_throws (messages : List JsonValue) (message : Message) :
    Throws (RequestError .anthropic) (appendHistory messages message) := by
  unfold appendHistory
  split
  · exact throws_ok _
  · split
    · exact throws_ok _
    · exact throws_bind (blocks_throws message) fun _ => throws_ok _
  · exact throws_bind (blocks_throws message) fun _ => throws_ok _
  · exact throws_bind (blocks_throws message) fun _ => throws_ok _

theorem makeRequest_throws (config : AnthropicConfig) (request : AIRequest) :
    Throws (RequestError .anthropic) (makeRequest config request) := by
  unfold makeRequest
  refine throws_bind (mergedProviderOptions_throws _ _) fun _ => ?_
  refine throws_bind (throws_foldlM appendHistory_throws request.messages []) fun _ => ?_
  exact throws_bind (withTools_throws "Anthropic" _ _) fun _ => throws_ok _

end AnthropicClient

/-! ## Gemini -/

namespace GeminiClient

theorem part_throws (content : Content) : Throws (RequestError .gemini) (part content) := by
  have hurl : Exc.provider
      "Gemini media URLs must be uploaded File API or gs:// URIs; use inline bytes for arbitrary media data" .gemini 0
      "unsupported_media_url" "" ∈ historyErrors .gemini := List.mem_singleton.mpr rfl
  unfold part
  split
  · exact throws_ok _
  · exact throws_ok _
  · exact throws_ok _
  · exact throws_ok _
  · exact throws_ite (throws_ok _) (throws_error (requestError_history hurl))
  · exact throws_ite (throws_ok _) (throws_error (requestError_history hurl))
  · exact throws_ite (throws_ok _) (throws_error (requestError_history hurl))
  · exact throws_ite (throws_ok _) (throws_error (requestError_unsupported content))
  · exact throws_error (requestError_unsupported content)

theorem parts_throws (message : Message) : Throws (RequestError .gemini) (parts message) :=
  throws_mapM part_throws message.contents

theorem toolResponsePart_throws (content : Content) : Throws (RequestError .gemini) (toolResponsePart content) := by
  unfold toolResponsePart
  split
  · exact throws_ok _
  · exact throws_ok _
  · exact throws_ok _
  · exact throws_ok _
  · exact throws_ite (throws_ok _) (throws_error (requestError_unsupported content))
  · exact throws_error (requestError_unsupported content)

theorem toolResponseParts_throws (message : Message) : Throws (RequestError .gemini) (toolResponseParts message) :=
  throws_bind (throws_mapM toolResponsePart_throws message.contents) fun _ => throws_ok _

theorem appendHistory_throws (json : JsonText) (contents : List JsonValue) (message : Message) :
    Throws (RequestError .gemini) (appendHistory json contents message) := by
  unfold appendHistory
  split
  · exact throws_ok _
  · split
    · split
      · exact throws_ok _
      · exact throws_ok _
    · exact throws_bind (parts_throws message) fun _ => throws_ok _
  · exact throws_bind (toolResponseParts_throws message) fun _ => throws_ok _
  · exact throws_bind (parts_throws message) fun _ => throws_ok _

theorem withGenerationConfig_throws (body : JsonValue) (options : GenerateOptions) :
    Throws (RequestError .gemini) (withGenerationConfig body options) := by
  unfold withGenerationConfig
  refine throws_ite (throws_ok _) ?_
  exact throws_ite (throws_error (requestError_configuration _)) (throws_ok _)

theorem makeRequest_throws (json : JsonText) (config : GeminiConfig) (request : AIRequest) :
    Throws (RequestError .gemini) (makeRequest json config request) := by
  unfold makeRequest
  refine throws_bind (mergedProviderOptions_throws _ _) fun _ => ?_
  refine throws_bind (throws_foldlM (appendHistory_throws json) request.messages []) fun _ => ?_
  exact throws_bind (withTools_throws "Gemini" _ _) fun _ => withGenerationConfig_throws _ _

end GeminiClient

/-! ## OpenAI-compatible -/

namespace CompatibleClient

theorem chatAudioFormat_throws (content : Content) :
    Throws (RequestError .openaiCompatible) (chatAudioFormat content .openaiCompatible) := by
  have hformat : Exc.provider "audio format option must be a non-empty string" .openaiCompatible 0
      "invalid_audio_format" "" ∈ historyErrors .openaiCompatible := by simp [historyErrors]
  have hmedia : Exc.provider "audio input requires MP3/WAV media type or options.format" .openaiCompatible 0
      "unsupported_audio_format" "" ∈ historyErrors .openaiCompatible := by simp [historyErrors]
  unfold chatAudioFormat
  split
  · exact throws_ite (throws_error (requestError_history hformat)) (throws_ok _)
  · exact throws_error (requestError_history hformat)
  · refine throws_ite (throws_ok _) ?_
    exact throws_ite (throws_ok _) (throws_error (requestError_history hmedia))

theorem contentPart_throws (content : Content) : Throws (RequestError .openaiCompatible) (contentPart content) := by
  unfold contentPart
  split
  · exact throws_ok _
  · exact throws_ok _
  · exact throws_ok _
  · exact throws_bind (chatAudioFormat_throws content) fun _ => throws_ok _
  · exact throws_ok _
  · exact throws_ite (throws_ok _) (throws_error (requestError_unsupported content))
  · exact throws_error (requestError_unsupported content)

theorem contentParts_throws (message : Message) : Throws (RequestError .openaiCompatible) (contentParts message) :=
  throws_bind (throws_mapM contentPart_throws message.contents) fun _ => throws_ok _

theorem messageContent_throws (message : Message) :
    Throws (RequestError .openaiCompatible) (messageContent message) := by
  unfold messageContent
  split
  · exact throws_ite (throws_ok _) (contentParts_throws message)
  · exact contentParts_throws message

theorem toolContent_throws (message : Message) : Throws (RequestError .openaiCompatible) (toolContent message) := by
  have htext (content : Content) : Throws (RequestError .openaiCompatible) (toolText content) :=
    throws_ite (throws_error (requestError_unsupported content)) (throws_ok _)
  exact throws_bind (throws_mapM htext message.contents) fun _ => throws_ok _

theorem replayMessage_throws (native : JsonValue) : Throws (RequestError .openaiCompatible) (replayMessage native) := by
  have hid : Exc.provider "OpenAI-compatible audio history is missing its id" .openaiCompatible 0
      "malformed_response" "" ∈ historyErrors .openaiCompatible := by simp [historyErrors]
  unfold replayMessage
  split
  · exact throws_ite (throws_error (requestError_history hid)) (throws_ok _)
  · exact throws_ok _

theorem roleMessage_throws (role : String) (message : Message) :
    Throws (RequestError .openaiCompatible) (roleMessage role message) :=
  throws_bind (messageContent_throws message) fun _ => throws_ok _

theorem appendHistory_throws (messages : List JsonValue) (message : Message) :
    Throws (RequestError .openaiCompatible) (appendHistory messages message) := by
  unfold appendHistory
  split
  · exact throws_ok _
  · split
    · exact throws_bind (replayMessage_throws _) fun _ => throws_ok _
    · exact throws_bind (roleMessage_throws "assistant" message) fun _ => throws_ok _
  · exact throws_bind (toolContent_throws message) fun _ => throws_ok _
  · exact throws_bind (roleMessage_throws "user" message) fun _ => throws_ok _

theorem makeRequest_throws (config : OpenAICompatibleConfig) (request : AIRequest) :
    Throws (RequestError .openaiCompatible) (makeRequest config request) := by
  unfold makeRequest
  refine throws_bind (mergedProviderOptions_throws _ _) fun _ => ?_
  refine throws_bind (throws_foldlM appendHistory_throws request.messages _) fun _ => ?_
  exact throws_bind (withTools_throws "OpenAI-compatible" _ _) fun _ => throws_ok _

end CompatibleClient

theorem Adapter.makeRequest_throws (json : JsonText) (adapter : Adapter) (request : AIRequest) :
    Throws (RequestError adapter.provider) (adapter.makeRequest json request) := by
  cases adapter with
  | openai impl => exact OpenAIClient.makeRequest_throws impl.config request
  | anthropic impl => exact AnthropicClient.makeRequest_throws impl.config request
  | gemini impl => exact GeminiClient.makeRequest_throws json impl.config request
  | compatible impl => exact CompatibleClient.makeRequest_throws impl.config request

end NeuralPlus
