import NeuralPlus.Schema
import NeuralPlus.Session
import NeuralPlus.Trace
import Mathlib.Data.List.Sort

/-!
# Clients and their tools

The constructor of `AIClient`, the checks of a call to `generate`, the
accumulation of token usage, and the execution of one tool call. A client can
only be built from options the constructor accepts, so the checks it made are
fields of the structure.
-/

namespace NeuralPlus

open Fallible

/-! ## Tools -/

structure ToolContext where
  sessionId : String
  runId : String
  callId : String
  deriving DecidableEq

structure ToolOutput where
  contents : List Content
  isError : Bool := false
  deriving DecidableEq

def ToolOutput.text (value : String) : ToolOutput := { contents := [Content.text value] }

def ToolOutput.error (value : String) : ToolOutput := { ToolOutput.text value with isError := true }

/-- A `Tool` object: its declaration, and a handle that tells it from other objects. -/
structure Tool where
  handle : Nat
  spec : ToolSpec

structure Invocation where
  tool : Nat
  context : ToolContext
  arguments : JsonValue
  deriving DecidableEq

def FunctionTool.invoke (function : ToolContext → JsonValue → Except Exc ToolOutput) (context : ToolContext)
    (arguments : JsonValue) : Except Exc ToolOutput := do
  throwIf (arguments.isObject = false) (.invalidArgument "tool arguments must be a JSON object")
  function context arguments

def FunctionTool.isPortableToolName (name : String) : Bool :=
  if name = "" ∨ name.utf8ByteSize > 64 then false
  else name.toList.all fun character =>
    let asciiAlphanumeric := ('A' ≤ character && character ≤ 'Z') || ('a' ≤ character && character ≤ 'z') ||
      ('0' ≤ character && character ≤ '9')
    asciiAlphanumeric || character = '_' || character = '-'

def FunctionTool.validateRequired : JsonValue → Except Exc Unit
  | .array names => names.forM fun name =>
    throwIf (name.isString = false ∨ name = .string "")
      (.invalidArgument "tool input_schema.required entries must be non-empty strings")
  | _ => .error (.invalidArgument "tool input_schema.required must be a JSON array")

/-- The check of `tool.cpp`, which looks at the root of the schema only. -/
def FunctionTool.validateToolSpec (spec : ToolSpec) : Except Exc Unit := do
  throwIf (isPortableToolName spec.name = false)
    (.invalidArgument "tool name must contain 1-64 ASCII letters, digits, '_' or '-'")
  throwIf (spec.description = "") (.invalidArgument "tool description must not be empty")
  throwIf (spec.inputSchema.isObject = false) (.invalidArgument "tool input_schema must be a JSON object")
  throwIf (spec.providerOptions.isObject = false) (.invalidArgument "tool provider_options must be a JSON object")
  throwIf (spec.inputSchema.find? "type" ≠ some (.string "object"))
    (.invalidArgument "tool input_schema root type must be 'object'")
  throwIf ((spec.inputSchema.find? "properties").any fun properties => properties.isObject = false)
    (.invalidArgument "tool input_schema.properties must be a JSON object")
  match spec.inputSchema.find? "required" with
  | none => .ok ()
  | some required => validateRequired required

/-- The constructor; `handle` stands for the object it builds. -/
def FunctionTool.make (handle : Nat) (spec : ToolSpec)
    (function : Option (ToolContext → JsonValue → Except Exc ToolOutput)) : Except Exc Tool := do
  validateToolSpec spec
  throwIf (function.isNone = true) (.invalidArgument "tool function must not be empty")
  return { handle, spec }

/-! ## Declarations -/

def requireJsonObject (value : JsonValue) (field : String) : Except Exc Unit :=
  throwIf (value.isObject = false) (.configuration (field ++ " must be a JSON object"))

def validNameCharacter (c : Char) : Bool :=
  ('A' ≤ c && c ≤ 'Z') || ('a' ≤ c && c ≤ 'z') || ('0' ≤ c && c ≤ '9') || c = '_' || c = '-'

def validToolName (name : String) : Bool :=
  name != "" && decide (name.utf8ByteSize ≤ 64) && name.toList.all validNameCharacter

def validateToolSpec (spec : ToolSpec) : Except Exc Unit := do
  throwIf (validToolName spec.name = false)
    (.configuration "tool name must contain 1-64 ASCII letters, digits, '_' or '-'")
  throwIf (spec.description = "") (.configuration ("tool description must not be empty: " ++ spec.name))
  validateSchemaDefinition spec.inputSchema ("tool '" ++ spec.name ++ "' input_schema")
  requireJsonObject spec.providerOptions "tool provider_options"
  throwIf (spec.inputSchema.find? "type" ≠ some (.string "object"))
    (.configuration ("tool '" ++ spec.name ++ "' input_schema root type must be object"))

theorem validateToolSpec_ok {spec : ToolSpec} (h : validateToolSpec spec = .ok ()) :
    validToolName spec.name = true ∧
    validateSchemaDefinition spec.inputSchema ("tool '" ++ spec.name ++ "' input_schema") = .ok () ∧
    spec.inputSchema.find? "type" = some (.string "object") := by
  simp only [validateToolSpec, requireJsonObject, bind_eq_ok, throwIf_eq_ok] at h
  obtain ⟨_, hn, _, _, _, hs, _, _, ht⟩ := h
  exact ⟨by simpa using hn, hs, by simpa using ht⟩

/-! ## The registry -/

structure RegisteredTool where
  implementation : Nat
  spec : ToolSpec

structure Registry where
  tools : List (String × RegisteredTool) := []
  specs : List ToolSpec := []
  keyed : ∀ p ∈ tools, p.1 = p.2.spec.name
  inStep : tools.map (fun p => p.2.spec) = specs
  valid : ∀ spec ∈ specs, validateToolSpec spec = .ok ()
  distinct : (specs.map ToolSpec.name).Nodup

namespace Registry

def empty : Registry :=
  { keyed := fun _ h => absurd h List.not_mem_nil, inStep := rfl, valid := fun _ h => absurd h List.not_mem_nil,
    distinct := List.nodup_nil }

theorem keys_eq (r : Registry) : r.tools.map Prod.fst = r.specs.map ToolSpec.name := by
  rw [← r.inStep, List.map_map]
  exact List.map_congr_left r.keyed

def add (r : Registry) : Option Tool → Except Exc Registry
  | none => .error (.configuration "tools must not contain null")
  | some tool =>
    match hv : validateToolSpec tool.spec with
    | .error e => .error e
    | .ok () =>
      if hd : (OrdMap.find? tool.spec.name r.tools).isSome then
        .error (.configuration ("duplicate tool: " ++ tool.spec.name))
      else
        .ok { tools := r.tools ++ [(tool.spec.name, ⟨tool.handle, tool.spec⟩)]
              specs := r.specs ++ [tool.spec]
              keyed := fun p hp => by
                rcases List.mem_append.mp hp with hp | hp
                · exact r.keyed p hp
                · rw [List.mem_singleton.mp hp]
              inStep := by rw [List.map_append, r.inStep]; rfl
              valid := fun spec hs => by
                rcases List.mem_append.mp hs with hs | hs
                · exact r.valid spec hs
                · rw [List.mem_singleton.mp hs]; exact hv
              distinct := by
                rw [OrdMap.find?_isSome_iff, r.keys_eq] at hd
                rw [List.map_append, List.map_singleton]
                exact List.nodup_append.mpr
                  ⟨r.distinct, List.nodup_singleton _, fun a ha b hb => by
                    rw [List.mem_singleton.mp hb]; rintro rfl; exact hd ha⟩ }

def find? (r : Registry) (name : String) : Option RegisteredTool := OrdMap.find? name r.tools

theorem find?_some {r : Registry} {name : String} {tool : RegisteredTool} (h : r.find? name = some tool) :
    tool.spec ∈ r.specs ∧ tool.spec.name = name ∧ validateToolSpec tool.spec = .ok () := by
  have hm := OrdMap.find?_mem h
  have hs : tool.spec ∈ r.specs := by
    rw [← r.inStep]
    exact List.mem_map.mpr ⟨_, hm, rfl⟩
  exact ⟨hs, (r.keyed _ hm).symm, r.valid _ hs⟩

end Registry

/-! ## Clients -/

structure ClientOptions where
  tools : List (Option Tool) := []
  tracers : List (Option Nat) := []
  maxModelRounds : SizeT := 8
  parallelToolCalls : Bool := true
  maxParallelToolCalls : SizeT := 4
  maxToolCallsPerGeneration : SizeT := 64
  stopOnToolError : Bool := false
  captureTracePayloads : Bool := false

def sortByName (specs : List ToolSpec) : List ToolSpec := specs.insertionSort fun a b => a.name ≤ b.name

structure AIClient where
  model : ModelDescriptor
  options : ClientOptions
  registry : Registry
  rounds_ne : options.maxModelRounds ≠ 0
  parallel_ne : options.maxParallelToolCalls ≠ 0
  calls_ne : options.maxToolCallsPerGeneration ≠ 0

namespace AIClient

def make (model : ModelDescriptor) (options : ClientOptions) : Except Exc AIClient := do
  throwIf (model.id = "") (.configuration "model id must not be empty")
  requireJsonObject model.providerOptions "model provider_options"
  if hr : options.maxModelRounds = 0 then
    throw (.configuration "max_model_rounds must be greater than zero")
  else if hp : options.maxParallelToolCalls = 0 then
    throw (.configuration "max_parallel_tool_calls must be greater than zero")
  else if hc : options.maxToolCallsPerGeneration = 0 then
    throw (.configuration "max_tool_calls_per_generation must be greater than zero")
  else do
    throwIf (options.tracers.any Option.isNone) (.configuration "tracers must not contain null")
    let registry ← options.tools.foldlM Registry.add .empty
    throwIf (registry.specs ≠ [] ∧ model.capabilities.tools = false)
      (.configuration "tools were configured for a model that does not advertise tool support")
    return { model, options, registry, rounds_ne := hr, parallel_ne := hp, calls_ne := hc }

def toolSpecs (client : AIClient) : List ToolSpec := sortByName client.registry.specs

variable (client : AIClient)

/-! ## Checking a call to generate -/

def validateContent (content : Content) : Except Exc Unit :=
  match content.type with
  | .text => do
    throwIf (client.model.capabilities.textInput = false) (.invalidArgument "model does not support text input")
    throwIf (content.value = "") (.invalidArgument "text input must not be empty")
  | .image =>
    throwIf (client.model.capabilities.imageInput = false) (.invalidArgument "model does not support image input")
  | .audio =>
    throwIf (client.model.capabilities.audioInput = false) (.invalidArgument "model does not support audio input")
  | .file =>
    throwIf (client.model.capabilities.fileInput = false) (.invalidArgument "model does not support file input")
  | .extension =>
    throwIf (content.provider ≠ client.model.provider.toString)
      (.invalidArgument "content extension does not match the configured provider")

def validateInput (input : Message) : Except Exc Unit := do
  throwIf (input.role ≠ .user) (.invalidArgument "generate input must have user role")
  throwIf (input.contents = []) (.invalidArgument "generate input must contain content")
  input.contents.forM client.validateContent

def validateOptions (options : GenerateOptions) : Except Exc Unit := do
  throwIf (options.temperature.any fun t => !t.isFinite || t.isNegative)
    (.invalidArgument "temperature must be finite and greater than or equal to zero")
  throwIf (options.maxOutputTokens = some 0) (.invalidArgument "max_output_tokens must be greater than zero")
  throwIf (options.providerOptions.isObject = false) (.invalidArgument "provider_options must be a JSON object")

theorem validateInput_ok {client : AIClient} {input : Message} (h : client.validateInput input = .ok ()) :
    input.role = .user ∧ input.contents ≠ [] ∧ ∀ c ∈ input.contents, client.validateContent c = .ok () := by
  simp only [validateInput, bind_eq_ok, throwIf_eq_ok, forM_eq_ok] at h
  obtain ⟨_, hr, _, hc, hall⟩ := h
  exact ⟨by simpa using hr, hc, hall⟩

end AIClient

/-! ## Token usage -/

def addCount (total value : Option SizeT) (firstValue : Bool) : Except Exc (Option SizeT) :=
  match value with
  | none => .ok none
  | some v =>
    if firstValue then .ok (some v)
    else
      match total with
      | none => .ok none
      | some current =>
        if v > SizeT.max - current then .error (.provider "token usage overflow" .custom 0 "" "")
        else .ok (some (current + v))

def addUsage (total value : TokenUsage) (firstValue : Bool) : Except Exc TokenUsage := do
  let inputTokens ← addCount total.inputTokens value.inputTokens firstValue
  let outputTokens ← addCount total.outputTokens value.outputTokens firstValue
  let totalTokens ← addCount total.totalTokens value.totalTokens firstValue
  let cachedInputTokens ← addCount total.cachedInputTokens value.cachedInputTokens firstValue
  let cacheCreationInputTokens ← addCount total.cacheCreationInputTokens value.cacheCreationInputTokens firstValue
  let reasoningTokens ← addCount total.reasoningTokens value.reasoningTokens firstValue
  return { inputTokens, outputTokens, totalTokens, cachedInputTokens, cacheCreationInputTokens, reasoningTokens }

/-! ## Executing one call -/

def outputText (output : ToolOutput) : String :=
  output.contents.foldl (fun r c => if c.type = .text then r ++ c.value else r) ""

/-- A `ToolExecution`, with the invocations it made and the event that closes it. -/
structure ToolExecution where
  call : ToolCall
  output : ToolOutput
  invocations : List Invocation := []
  toolEnd : TraceEvent
  deriving DecidableEq

structure ToolSite where
  sessionId : String
  runId : String
  invoke : Nat → ToolContext → JsonValue → Except Exc ToolOutput

namespace AIClient

variable (client : AIClient) (site : ToolSite) (call : ToolCall)

def toolStart : TraceEvent :=
  { makeEvent .toolStart site.sessionId site.runId call.name with operationId := call.id }

def toolEnd (output : ToolOutput) (internalDiagnostic : String) : TraceEvent :=
  (({ makeEvent .toolEnd site.sessionId site.runId call.name with
        operationId := call.id, level := if output.isError then .warning else .info }).setAttribute
      "is_error" (.boolean output.isError)).capture client.options.captureTracePayloads
    (if internalDiagnostic = "" then outputText output else internalDiagnostic)

def invokeTool (implementation : Nat) : ToolOutput × String :=
  match site.invoke implementation ⟨site.sessionId, site.runId, call.id⟩ call.arguments with
  | .ok output =>
    if output.contents = [] then (.error ("tool '" ++ call.name ++ "' returned no content"), "") else (output, "")
  | .error e => (.error ("tool '" ++ call.name ++ "' failed"), e.what?.getD "unknown tool exception")

def executeTool : Except Exc ToolExecution :=
  let finish (output : ToolOutput) (internalDiagnostic : String) (invocations : List Invocation) : ToolExecution :=
    { call, output, invocations, toolEnd := client.toolEnd site call output internalDiagnostic }
  match client.registry.find? call.name with
  | none => .ok (finish (.error ("unknown tool: " ++ call.name)) "" [])
  | some tool =>
    if call.argumentsValid = false then
      .ok (finish (.error ("invalid JSON arguments for tool '" ++ call.name ++ "': " ++ call.rawArguments)) "" [])
    else do
      let validationError ← validateValueAgainstSchema call.arguments tool.spec.inputSchema "$"
      if validationError ≠ "" then
        return finish (.error ("invalid arguments for tool '" ++ call.name ++ "': " ++ validationError)) "" []
      else
        let (output, internalDiagnostic) := invokeTool site call tool.implementation
        return finish output internalDiagnostic
          [⟨tool.implementation, ⟨site.sessionId, site.runId, call.id⟩, call.arguments⟩]

end AIClient

end NeuralPlus
