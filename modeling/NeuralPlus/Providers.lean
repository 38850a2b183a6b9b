import NeuralPlus.Anthropic
import NeuralPlus.Compatible
import NeuralPlus.Gemini
import NeuralPlus.Generate
import NeuralPlus.OpenAI

/-!
# The built-in clients

The four `AIClient` subclasses behind one interface: each adds its `Impl` to
the base class, and the base class calls nothing of it but `generate_once`.
-/

namespace NeuralPlus

open Fallible

inductive Adapter where
  | openai (impl : OpenAIClient.Impl)
  | anthropic (impl : AnthropicClient.Impl)
  | gemini (impl : GeminiClient.Impl)
  | compatible (impl : CompatibleClient.Impl)

namespace Adapter

def provider : Adapter → Provider
  | openai _ => .openai
  | anthropic _ => .anthropic
  | gemini _ => .gemini
  | compatible _ => .openaiCompatible

def model : Adapter → ModelDescriptor
  | openai impl => impl.config.model
  | anthropic impl => impl.config.model
  | gemini impl => impl.config.model
  | compatible impl => impl.config.model

variable (json : JsonText)

def appendHistory : Adapter → List JsonValue → Message → Except Exc (List JsonValue)
  | openai _ => OpenAIClient.appendHistory
  | anthropic _ => AnthropicClient.appendHistory
  | gemini _ => GeminiClient.appendHistory json
  | compatible _ => CompatibleClient.appendHistory

def makeRequest : Adapter → AIRequest → Except Exc JsonValue
  | openai impl => OpenAIClient.makeRequest impl.config
  | anthropic impl => AnthropicClient.makeRequest impl.config
  | gemini impl => GeminiClient.makeRequest json impl.config
  | compatible impl => CompatibleClient.makeRequest impl.config

def parseResponse (request : AIRequest) : Adapter → HttpResponse → Except Exc AIResponse
  | openai _ => OpenAIClient.parseResponse json
  | anthropic _ => AnthropicClient.parseResponse json
  | gemini _ => GeminiClient.parseResponse json request
  | compatible _ => CompatibleClient.parseResponse json request

def generateOnce (send : HttpRequest → Except Exc HttpResponse) : Adapter → AIRequest → Except Exc AIResponse
  | openai impl => impl.generate json send
  | anthropic impl => impl.generate json send
  | gemini impl => impl.generate json send
  | compatible impl => impl.generate json send

def secrets : Adapter → List String
  | openai impl => collectSensitiveValues impl.headers [impl.apiKey]
  | anthropic impl => collectSensitiveValues impl.headers [impl.apiKey]
  | gemini impl => collectSensitiveValues impl.headers [impl.apiKey]
  | compatible impl => collectSensitiveValues impl.headers [impl.apiKey.getD ""]

def httpRequest (body : JsonValue) : Adapter → HttpRequest
  | openai impl => { url := impl.endpoint, headers := impl.headers, body := json.dump body }
  | anthropic impl => { url := impl.endpoint, headers := impl.headers, body := json.dump body }
  | gemini impl => { url := impl.endpoint, headers := impl.headers, body := json.dump body }
  | compatible impl => { url := impl.endpoint, headers := impl.headers, body := json.dump body }

theorem generateOnce_eq (send : HttpRequest → Except Exc HttpResponse) (adapter : Adapter) (request : AIRequest) :
    adapter.generateOnce json send request = adapter.makeRequest json request >>= fun body =>
      exchange json send adapter.secrets (adapter.httpRequest json body) (adapter.parseResponse json request) := by
  cases adapter <;> rfl

theorem model_provider (adapter : Adapter) : adapter.model.provider = adapter.provider := by
  cases adapter with
  | openai impl => exact validateProvider_ok impl.valid
  | anthropic impl => exact validateProvider_ok impl.valid
  | gemini impl => exact validateProvider_ok impl.valid
  | compatible impl => exact validateProvider_ok impl.valid

end Adapter

/-- A built-in client: the base class and its adapter, for one model. -/
structure BuiltInClient where
  base : AIClient
  adapter : Adapter
  model_eq : base.model = adapter.model

theorem AIClient.make_model {model : ModelDescriptor} {options : ClientOptions} {client : AIClient}
    (h : AIClient.make model options = .ok client) : client.model = model := by
  unfold AIClient.make at h
  simp only [bind_eq_ok] at h
  obtain ⟨_, _, _, _, h⟩ := h
  split at h
  · cases h
  split at h
  · cases h
  split at h
  · cases h
  simp only [bind_eq_ok, pure_eq_ok, Except.ok.injEq] at h
  obtain ⟨_, _, _, _, _, _, h⟩ := h
  rw [← h]

namespace BuiltInClient

/-- The constructors' shared shape: the base class first, then the `Impl`, both for one model. -/
def make {Impl : Type} (model : ModelDescriptor) (options : ClientOptions) (adapterOf : Impl → Adapter)
    (impl : Except Exc Impl) (hmodel : ∀ i, impl = .ok i → (adapterOf i).model = model) :
    Except Exc BuiltInClient :=
  match hbase : AIClient.make model options with
  | .error e => .error e
  | .ok base =>
    match impl, hmodel with
    | .error e, _ => .error e
    | .ok i, hmodel =>
      .ok { base, adapter := adapterOf i, model_eq := (AIClient.make_model hbase).trans (hmodel i rfl).symm }

theorem model_provider (client : BuiltInClient) : client.base.model.provider = client.adapter.provider := by
  rw [client.model_eq]
  exact client.adapter.model_provider

end BuiltInClient

section Constructors

variable (getenv : String → Option String) (options : ClientOptions)

def OpenAIClient.make (config : OpenAIConfig) : Except Exc BuiltInClient :=
  BuiltInClient.make config.model options .openai (Impl.make getenv config) fun _ => Impl.make_model

def AnthropicClient.make (config : AnthropicConfig) : Except Exc BuiltInClient :=
  BuiltInClient.make config.model options .anthropic (Impl.make getenv config) fun _ => Impl.make_model

def GeminiClient.make (config : GeminiConfig) : Except Exc BuiltInClient :=
  BuiltInClient.make config.model options .gemini (Impl.make getenv config) fun _ => Impl.make_model

def CompatibleClient.make (config : OpenAICompatibleConfig) : Except Exc BuiltInClient :=
  BuiltInClient.make config.model options .compatible (Impl.make getenv config) fun _ => Impl.make_model

end Constructors

end NeuralPlus
