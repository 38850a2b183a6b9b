import NeuralPlus.Anthropic
import NeuralPlus.Compatible
import NeuralPlus.Gemini
import NeuralPlus.OpenAI

/-!
# Where each field of a request comes from

A request body is the merged options with fields of the SDK written over them.
Key by key: what the SDK writes, else the option of the call, else the option
of the model.
-/

namespace NeuralPlus

open Fallible

/-! ## Fields written over options -/

/-- The body holds the fields that have a value, and the base wherever they leave it. -/
structure Overlaid (base : String → Option JsonValue) (fields : List (String × Option JsonValue)) (body : JsonValue) :
    Prop where
  written : ∀ field ∈ fields, body.find? field.1 = field.2.or (base field.1)
  kept : ∀ key, key ∉ fields.map Prod.fst → body.find? key = base key

def writes (base : JsonValue) (fields : List (String × Option JsonValue)) : JsonValue :=
  fields.foldl (fun body field => setIfSome body field.1 field.2) base

theorem acceptsKey_setIfSome {body : JsonValue} (hbody : body.acceptsKey = true) (key : String)
    (value : Option JsonValue) : (setIfSome body key value).acceptsKey = true := by
  cases value with
  | none => exact hbody
  | some v =>
    unfold setIfSome
    rwa [JsonValue.acceptsKey_set]

theorem overlaid_writes (fields : List (String × Option JsonValue)) (hnodup : (fields.map Prod.fst).Nodup) :
    ∀ {base : JsonValue}, base.acceptsKey = true → Overlaid (fun key => base.find? key) fields (writes base fields) := by
  induction fields with
  | nil => exact fun _ => ⟨fun _ h => absurd h List.not_mem_nil, fun _ _ => rfl⟩
  | cons field fields ih =>
    intro base hbase
    rw [List.map_cons, List.nodup_cons] at hnodup
    obtain ⟨hfresh, hnodup⟩ := hnodup
    have hrest := ih hnodup (acceptsKey_setIfSome hbase field.1 field.2)
    refine ⟨?_, ?_⟩
    · intro other hother
      rcases List.mem_cons.mp hother with rfl | hother
      · exact (hrest.kept other.1 hfresh).trans (find?_setIfSome_self hbase other.1 other.2)
      · have hne : field.1 ≠ other.1 := by
          intro heq
          apply hfresh
          rw [heq]
          exact List.mem_map_of_mem hother
        have hwritten := hrest.written other hother
        rwa [find?_setIfSome_ne hne] at hwritten
    · intro key hkey
      rw [List.map_cons, List.mem_cons, not_or] at hkey
      exact (hrest.kept key hkey.2).trans (find?_setIfSome_ne (Ne.symm hkey.1) base field.2)

/-! ## Options, tools and declarations -/

def optionOf (model : ModelDescriptor) (options : GenerateOptions) (key : String) : Option JsonValue :=
  (options.providerOptions.find? key).or (model.providerOptions.find? key)

theorem mergedProviderOptions_find? {model : ModelDescriptor} {options : GenerateOptions} {body : JsonValue}
    (h : mergedProviderOptions model.providerOptions options.providerOptions = .ok body) :
    body.acceptsKey = true ∧ (fun key => body.find? key) = optionOf model options := by
  refine ⟨JsonValue.acceptsKey_of_isObject (mergedProviderOptions_ok h), ?_⟩
  unfold mergedProviderOptions requireObject at h
  simp only [bind_eq_ok, throwIf_eq_ok, pure_eq_ok, Except.ok.injEq] at h
  obtain ⟨_, hmodel, _, hcall, rfl⟩ := h
  funext key
  exact JsonValue.find?_update (by simpa using hmodel) (by simpa using hcall) key

def Configured (tools : Option JsonValue) (configured : List JsonValue) : Prop :=
  tools = none ∧ configured = [] ∨ tools = some (.array configured)

def toolsField (configured entries : List JsonValue) : Option JsonValue :=
  if entries = [] then none else some (.array (configured ++ entries))

theorem withTools_eq {provider : String} {body body' : JsonValue} {entries : List JsonValue}
    (h : withTools provider body entries = .ok body') :
    ∃ configured, Configured (body.find? "tools") configured ∧
      body' = setIfSome body "tools" (toolsField configured entries) := by
  unfold withTools at h
  simp only [bind_eq_ok, pure_eq_ok, Except.ok.injEq] at h
  obtain ⟨configured, hconfigured, rfl⟩ := h
  refine ⟨configured, ?_, ?_⟩
  · unfold configuredTools at hconfigured
    split at hconfigured
    · next htools => exact .inl ⟨htools, (Except.ok.inj hconfigured).symm⟩
    · next htools => exact .inr (by rw [htools, Except.ok.inj hconfigured])
    · cases hconfigured
  · unfold toolsField
    by_cases hnil : entries = []
    · rw [if_pos hnil, if_pos hnil]
      rfl
    · rw [if_neg hnil, if_neg hnil]
      rfl

def portableFields (schemaKey : String) (tool : ToolSpec) : List (String × Option JsonValue) :=
  [("name", some (.string tool.name)), ("description", some (.string tool.description)),
    (schemaKey, some tool.inputSchema)]

/-- A declaration has the portable fields and the fixed ones; its other members are those of the tool's options. -/
def Declares (schemaKey : String) (fixed : List (String × Option JsonValue)) (tool : ToolSpec)
    (declaration : JsonValue) : Prop :=
  Overlaid (fun key => tool.providerOptions.find? key) (fixed ++ portableFields schemaKey tool) declaration

/-- `operator[]` takes the options of every tool; of any other kind they make the builder throw. -/
def DeclarableTools (tools : List ToolSpec) : Prop := ∀ tool ∈ tools, tool.providerOptions.acceptsKey = true

theorem declares_declarations {schemaKey : String} {fixed : List (String × Option JsonValue)}
    {declarationOf : ToolSpec → JsonValue} (hdeclares : ∀ tool : ToolSpec, tool.providerOptions.acceptsKey = true →
      Declares schemaKey fixed tool (declarationOf tool)) :
    ∀ {tools : List ToolSpec}, DeclarableTools tools →
      List.Forall₂ (Declares schemaKey fixed) tools (tools.map declarationOf)
  | [], _ => .nil
  | tool :: _, h => .cons (hdeclares tool (h tool (List.mem_cons_self ..)))
      (declares_declarations hdeclares fun tool htool => h tool (List.mem_cons_of_mem _ htool))

theorem declaration_declares {schemaKey : String} (hkey : ["name", "description", schemaKey].Nodup) {tool : ToolSpec}
    (h : tool.providerOptions.acceptsKey = true) : Declares schemaKey [] tool (declaration schemaKey tool) := by
  have hwrites : declaration schemaKey tool = writes tool.providerOptions (portableFields schemaKey tool) := rfl
  rw [hwrites]
  exact overlaid_writes (portableFields schemaKey tool) hkey h

def OpenAIClient.fixedFields : List (String × Option JsonValue) := [("type", some (.string "function"))]

theorem OpenAIClient.functionDeclaration_declares {tool : ToolSpec} (h : tool.providerOptions.acceptsKey = true) :
    Declares "parameters" fixedFields tool (functionDeclaration tool) := by
  have hwrites : functionDeclaration tool =
      writes tool.providerOptions (fixedFields ++ portableFields "parameters" tool) := rfl
  have hnodup : ["type", "name", "description", "parameters"].Nodup := by decide
  rw [hwrites]
  exact overlaid_writes (fixedFields ++ portableFields "parameters" tool) hnodup h

/-! ## The system instruction -/

theorem intercalate_eq_empty_iff {sep : String} {texts : List String} (h : ∀ text ∈ texts, text ≠ "") :
    sep.intercalate texts = "" ↔ texts = [] := by
  refine ⟨fun hempty => ?_, fun hnil => by rw [hnil, String.intercalate_nil]⟩
  cases texts with
  | nil => rfl
  | cons text texts =>
    refine absurd ?_ (h text List.mem_cons_self)
    cases texts with
    | nil => rwa [String.intercalate_singleton] at hempty
    | cons next texts =>
      rw [String.intercalate_cons_cons, String.append_eq_empty_iff, String.append_eq_empty_iff] at hempty
      exact hempty.1.1

theorem intercalate_concat (sep : String) {texts : List String} (h : ∀ text ∈ texts, text ≠ "") (text : String) :
    sep.intercalate (texts ++ [text]) =
      (if sep.intercalate texts = "" then sep.intercalate texts else sep.intercalate texts ++ sep) ++ text := by
  by_cases hnil : texts = []
  · rw [hnil]
    simp
  · rw [if_neg (fun hempty => hnil ((intercalate_eq_empty_iff h).mp hempty)),
      String.intercalate_append_of_ne_nil hnil (List.cons_ne_nil _ _), String.intercalate_singleton]

/-- The system message and the texts of the messages with the system role, where these are not empty. -/
def systemTexts (request : AIRequest) : List String :=
  (request.systemMessage.toList ++ (request.messages.filter (·.role = .system)).map Message.text).filter (· ≠ "")

theorem systemTexts_ne_empty (request : AIRequest) : ∀ text ∈ systemTexts request, text ≠ "" := by
  intro text htext
  simpa using (List.mem_filter.mp htext).2

/-- The builders put the system texts together, a line each. -/
theorem systemInstruction_eq (request : AIRequest) :
    systemInstruction request = "\n".intercalate (systemTexts request) := by
  have hfold (messages : List Message) : ∀ texts : List String, (∀ text ∈ texts, text ≠ "") →
      messages.foldl (fun system message =>
          if message.role ≠ .system ∨ message.text = "" then system
          else (if system = "" then system else system ++ "\n") ++ message.text) ("\n".intercalate texts) =
        "\n".intercalate (texts ++ ((messages.filter (·.role = .system)).map Message.text).filter (· ≠ "")) := by
    induction messages with
    | nil => intro texts _; simp
    | cons message messages ih =>
      intro texts htexts
      rw [List.foldl_cons]
      by_cases hskip : message.role ≠ .system ∨ message.text = ""
      · rw [if_pos hskip, ih texts htexts]
        rcases hskip with hrole | hempty
        · rw [List.filter_cons_of_neg (by simpa using hrole)]
        · by_cases hrole : message.role = .system <;> simp [hrole, hempty]
      · obtain ⟨hrole, htext⟩ := not_or.mp hskip
        rw [if_neg hskip, ← intercalate_concat "\n" htexts, ih (texts ++ [message.text])]
        · simp [not_not.mp hrole, htext]
        · simpa [or_imp, forall_and] using ⟨htexts, htext⟩
  have hstart : request.systemMessage.getD "" = "\n".intercalate (request.systemMessage.toList.filter (· ≠ "")) := by
    cases request.systemMessage with
    | none => simp
    | some text => by_cases hempty : text = "" <;> simp [hempty]
  unfold systemInstruction systemTexts
  rw [hstart, hfold request.messages, List.filter_append]
  intro text htext
  simpa using (List.mem_filter.mp htext).2

/-! ## The four request builders -/

section
variable {request : AIRequest} {body : JsonValue}

def maxOutputTokensField (options : GenerateOptions) : Option JsonValue := options.maxOutputTokens.map .unsigned

def temperatureField (options : GenerateOptions) : Option JsonValue := options.temperature.map .float

/-- The system instruction as `write` writes it, if it has any text: the system texts, a line each. -/
def systemField (request : AIRequest) (write : String → JsonValue) : Option JsonValue :=
  if systemTexts request = [] then none else some (write ("\n".intercalate (systemTexts request)))

theorem systemField_eq (request : AIRequest) (write : String → JsonValue) : systemField request write =
    if systemInstruction request = "" then none else some (write (systemInstruction request)) := by
  unfold systemField
  rw [systemInstruction_eq]
  simp only [intercalate_eq_empty_iff (systemTexts_ne_empty request)]

theorem ite_systemField (request : AIRequest) (write : String → JsonValue) (body : JsonValue) (key : String) :
    (if systemInstruction request = "" then body else body.set key (write (systemInstruction request))) =
      setIfSome body key (systemField request write) := by
  rw [systemField_eq]
  by_cases hempty : systemInstruction request = ""
  · rw [if_pos hempty, if_pos hempty]
    rfl
  · rw [if_neg hempty, if_neg hempty]
    rfl

def OpenAIClient.fields (config : OpenAIConfig) (request : AIRequest) (input : List JsonValue)
    (tools : Option JsonValue) : List (String × Option JsonValue) :=
  [("model", some (.string config.model.id)), ("stream", some (.boolean false)), ("background", some (.boolean false)),
    ("input", some (.array input)), ("instructions", request.systemMessage.map .string), ("tools", tools),
    ("max_output_tokens", maxOutputTokensField request.options), ("temperature", temperatureField request.options)]

def OpenAIClient.Precedence (config : OpenAIConfig) (request : AIRequest) (body : JsonValue) : Prop :=
  ∃ input configured declarations, request.messages.foldlM appendHistory [] = .ok input ∧
    Configured (optionOf config.model request.options "tools") configured ∧
    List.Forall₂ (Declares "parameters" fixedFields) request.tools declarations ∧
    Overlaid (optionOf config.model request.options)
      (fields config request input (toolsField configured declarations)) body

theorem OpenAIClient.makeRequest_precedence {config : OpenAIConfig} (htools : DeclarableTools request.tools)
    (h : makeRequest config request = .ok body) : Precedence config request body := by
  unfold makeRequest at h
  simp only [bind_eq_ok, pure_eq_ok, Except.ok.injEq] at h
  obtain ⟨merged, hmerged, input, hinput, withDeclared, hwith, rfl⟩ := h
  obtain ⟨haccepts, hoptions⟩ := mergedProviderOptions_find? hmerged
  obtain ⟨configured, hconfigured, rfl⟩ := withTools_eq hwith
  refine ⟨input, configured, request.tools.map functionDeclaration, hinput, ?_,
    declares_declarations (fun _ => functionDeclaration_declares) htools, ?_⟩
  · rw [← hoptions]
    simpa (disch := decide) only [find?_setIfSome_ne, JsonValue.find?_set_ne] using hconfigured
  · have hnodup : ["model", "stream", "background", "input", "instructions", "tools", "max_output_tokens",
        "temperature"].Nodup := by decide
    rw [← hoptions]
    exact overlaid_writes (fields config request input (toolsField configured _)) hnodup haccepts

def AnthropicClient.fields (config : AnthropicConfig) (request : AIRequest) (messages : List JsonValue)
    (tools : Option JsonValue) : List (String × Option JsonValue) :=
  [("model", some (.string config.model.id)), ("stream", some (.boolean false)),
    ("max_tokens", some (.unsigned (request.options.maxOutputTokens.getD config.defaultMaxOutputTokens))),
    ("messages", some (.array messages)), ("system", systemField request .string), ("tools", tools),
    ("temperature", temperatureField request.options)]

def AnthropicClient.Precedence (config : AnthropicConfig) (request : AIRequest) (body : JsonValue) : Prop :=
  ∃ messages configured declarations, request.messages.foldlM appendHistory [] = .ok messages ∧
    Configured (optionOf config.model request.options "tools") configured ∧
    List.Forall₂ (Declares "input_schema" []) request.tools declarations ∧
    Overlaid (optionOf config.model request.options)
      (fields config request messages (toolsField configured declarations)) body

theorem AnthropicClient.makeRequest_precedence {config : AnthropicConfig} (htools : DeclarableTools request.tools)
    (h : makeRequest config request = .ok body) : Precedence config request body := by
  unfold makeRequest at h
  simp only [bind_eq_ok, pure_eq_ok, Except.ok.injEq, ite_systemField request .string] at h
  obtain ⟨merged, hmerged, messages, hmessages, withDeclared, hwith, rfl⟩ := h
  obtain ⟨haccepts, hoptions⟩ := mergedProviderOptions_find? hmerged
  obtain ⟨configured, hconfigured, rfl⟩ := withTools_eq hwith
  refine ⟨messages, configured, request.tools.map (declaration "input_schema"), hmessages, ?_,
    declares_declarations (fun _ => declaration_declares (by decide)) htools, ?_⟩
  · rw [← hoptions]
    simpa (disch := decide) only [find?_setIfSome_ne, JsonValue.find?_set_ne] using hconfigured
  · have hnodup : ["model", "stream", "max_tokens", "messages", "system", "tools", "temperature"].Nodup := by decide
    rw [← hoptions]
    exact overlaid_writes (fields config request messages (toolsField configured _)) hnodup haccepts

def GeminiClient.configFields (options : GenerateOptions) : List (String × Option JsonValue) :=
  [("maxOutputTokens", maxOutputTokensField options), ("temperature", temperatureField options)]

/-- The field is written when there is a typed value, and keeps the other members of the option, an object. -/
def GeminiClient.ConfigField (options : GenerateOptions) (option field : Option JsonValue) : Prop :=
  (field = none ↔ options.maxOutputTokens = none ∧ options.temperature = none) ∧
    ∀ config, field = some config → (option.getD .emptyObject).isObject = true ∧
      Overlaid (fun key => (option.getD .emptyObject).find? key) (configFields options) config

def GeminiClient.systemText (text : String) : JsonValue :=
  .ofMembers [("parts", .array [.ofMembers [("text", .string text)]])]

def GeminiClient.fields (request : AIRequest) (contents : List JsonValue) (tools config : Option JsonValue) :
    List (String × Option JsonValue) :=
  [("contents", some (.array contents)), ("systemInstruction", systemField request systemText), ("tools", tools),
    ("generationConfig", config)]

def GeminiClient.Precedence (json : JsonText) (config : GeminiConfig) (request : AIRequest) (body : JsonValue) : Prop :=
  ∃ contents configured declarations generationConfig,
    request.messages.foldlM (appendHistory json) [] = .ok contents ∧
    Configured (optionOf config.model request.options "tools") configured ∧
    List.Forall₂ (Declares "parameters" []) request.tools declarations ∧
    ConfigField request.options (optionOf config.model request.options "generationConfig") generationConfig ∧
    Overlaid (optionOf config.model request.options)
      (fields request contents (toolsField configured (if declarations = [] then []
        else [.ofMembers [("functionDeclarations", .array declarations)]])) generationConfig) body

theorem GeminiClient.withGenerationConfig_eq {options : GenerateOptions} {body' : JsonValue}
    (h : withGenerationConfig body options = .ok body') :
    ∃ config, ConfigField options (body.find? "generationConfig") config ∧
      body' = setIfSome body "generationConfig" config := by
  unfold withGenerationConfig at h
  dsimp only at h
  by_cases hnone : options.maxOutputTokens = none ∧ options.temperature = none
  · rw [if_pos hnone] at h
    exact ⟨none, ⟨⟨fun _ => hnone, fun _ => rfl⟩, fun _ hconfig => by cases hconfig⟩, (Except.ok.inj h).symm⟩
  · rw [if_neg hnone] at h
    by_cases hobject : ((body.find? "generationConfig").getD .emptyObject).isObject = false
    · rw [if_pos hobject] at h
      cases h
    · rw [if_neg hobject] at h
      have hobject : ((body.find? "generationConfig").getD .emptyObject).isObject = true := by simpa using hobject
      have hnodup : ["maxOutputTokens", "temperature"].Nodup := by decide
      refine ⟨some (writes ((body.find? "generationConfig").getD .emptyObject) (configFields options)), ⟨?_, ?_⟩,
        (Except.ok.inj h).symm⟩
      · simp [hnone]
      · intro config hconfig
        rw [← Option.some.inj hconfig]
        exact ⟨hobject, overlaid_writes (configFields options) hnodup (JsonValue.acceptsKey_of_isObject hobject)⟩

theorem GeminiClient.functionDeclarations_eq (tools : List ToolSpec) :
    functionDeclarations tools = if tools.map (declaration "parameters") = [] then []
      else [.ofMembers [("functionDeclarations", .array (tools.map (declaration "parameters")))]] := by
  cases tools <;> rfl

theorem GeminiClient.makeRequest_precedence {json : JsonText} {config : GeminiConfig}
    (htools : DeclarableTools request.tools) (h : makeRequest json config request = .ok body) :
    Precedence json config request body := by
  have hsystem := ite_systemField request systemText
  unfold makeRequest at h
  unfold systemText at hsystem
  simp only [bind_eq_ok, hsystem] at h
  obtain ⟨merged, hmerged, contents, hcontents, withDeclared, hwith, h⟩ := h
  obtain ⟨haccepts, hoptions⟩ := mergedProviderOptions_find? hmerged
  obtain ⟨configured, hconfigured, rfl⟩ := withTools_eq hwith
  obtain ⟨generationConfig, hfield, rfl⟩ := withGenerationConfig_eq h
  refine ⟨contents, configured, request.tools.map (declaration "parameters"), generationConfig, hcontents, ?_,
    declares_declarations (fun _ => declaration_declares (by decide)) htools, ?_, ?_⟩
  · rw [← hoptions]
    simpa (disch := decide) only [find?_setIfSome_ne, JsonValue.find?_set_ne] using hconfigured
  · rw [← hoptions]
    simpa (disch := decide) only [find?_setIfSome_ne, JsonValue.find?_set_ne] using hfield
  · have hnodup : ["contents", "systemInstruction", "tools", "generationConfig"].Nodup := by decide
    rw [← hoptions, ← functionDeclarations_eq]
    exact overlaid_writes (fields request contents (toolsField configured _) generationConfig) hnodup haccepts

def CompatibleClient.systemTurn (text : String) : JsonValue :=
  .ofMembers [("role", .string "system"), ("content", .string text)]

theorem CompatibleClient.systemEntry_eq (request : AIRequest) :
    systemEntry (systemInstruction request) = (systemField request systemTurn).toList := by
  rw [systemField_eq]
  unfold systemEntry
  split <;> rfl

/-- The fields of a Chat Completions request; its system instruction is the first of the messages. -/
def CompatibleClient.fields (config : OpenAICompatibleConfig) (request : AIRequest) (history : List JsonValue)
    (tools : Option JsonValue) : List (String × Option JsonValue) :=
  [("model", some (.string config.model.id)), ("stream", some (.boolean false)),
    ("messages", some (.array ((systemField request systemTurn).toList ++ history))), ("tools", tools),
    ("max_tokens", maxOutputTokensField request.options), ("temperature", temperatureField request.options)]

def CompatibleClient.Precedence (config : OpenAICompatibleConfig) (request : AIRequest) (body : JsonValue) : Prop :=
  ∃ history configured declarations, request.messages.foldlM appendHistory [] = .ok history ∧
    Configured (optionOf config.model request.options "tools") configured ∧
    List.Forall₂ (Declares "parameters" []) request.tools declarations ∧
    Overlaid (optionOf config.model request.options)
      (fields config request history (toolsField configured (declarations.map fun declaration =>
        .ofMembers [("type", .string "function"), ("function", declaration)]))) body

theorem CompatibleClient.appendHistory_behind (start entries : List JsonValue) (message : Message) :
    appendHistory (start ++ entries) message = (appendHistory entries message).map (start ++ ·) := by
  unfold appendHistory
  cases message.role with
  | system => rfl
  | assistant =>
    cases nativeMessage message with
    | some native =>
      dsimp only
      cases replayMessage native <;> simp [Except.map]
    | none =>
      dsimp only
      cases roleMessage "assistant" message <;> simp [Except.map]
  | tool => cases toolContent message <;> simp [Except.map]
  | user => cases roleMessage "user" message <;> simp [Except.map]

theorem CompatibleClient.history_behind (start : List JsonValue) :
    ∀ (messages : List Message) {entries entries' : List JsonValue},
    messages.foldlM appendHistory (start ++ entries) = .ok entries' →
      ∃ history, messages.foldlM appendHistory entries = .ok history ∧ entries' = start ++ history
  | [], entries, _, h => ⟨entries, rfl, (Except.ok.inj h).symm⟩
  | message :: messages, entries, _, h => by
    rw [List.foldlM_cons, appendHistory_behind] at h
    rw [List.foldlM_cons]
    cases hmessage : appendHistory entries message with
    | error e =>
      rw [hmessage] at h
      cases h
    | ok entries₁ =>
      rw [hmessage] at h
      exact history_behind start messages h

theorem CompatibleClient.makeRequest_precedence {config : OpenAICompatibleConfig}
    (htools : DeclarableTools request.tools) (h : makeRequest config request = .ok body) :
    Precedence config request body := by
  unfold makeRequest at h
  simp only [bind_eq_ok, pure_eq_ok, Except.ok.injEq] at h
  obtain ⟨merged, hmerged, messages, hmessages, withDeclared, hwith, rfl⟩ := h
  obtain ⟨haccepts, hoptions⟩ := mergedProviderOptions_find? hmerged
  obtain ⟨configured, hconfigured, rfl⟩ := withTools_eq hwith
  rw [systemEntry_eq, ← List.append_nil (systemField ..).toList] at hmessages
  obtain ⟨history, hhistory, rfl⟩ := history_behind _ _ hmessages
  refine ⟨history, configured, request.tools.map (declaration "parameters"), hhistory, ?_,
    declares_declarations (fun _ => declaration_declares (by decide)) htools, ?_⟩
  · rw [← hoptions]
    simpa (disch := decide) only [find?_setIfSome_ne, JsonValue.find?_set_ne] using hconfigured
  · have hnodup : ["model", "stream", "messages", "tools", "max_tokens", "temperature"].Nodup := by decide
    have hentries : (request.tools.map (declaration "parameters")).map (fun declaration =>
        JsonValue.ofMembers [("type", .string "function"), ("function", declaration)]) =
          request.tools.map functionTool := List.map_map
    rw [← hoptions, hentries]
    exact overlaid_writes (fields config request history (toolsField configured _)) hnodup haccepts

end

/-- **Every field of an accepted request comes from where the precedence puts it**: the SDK's own fields and the
typed ones that have a value, then the options of the call, then those of the model. -/
theorem requests_keep_precedence (json : JsonText) (request : AIRequest) (htools : DeclarableTools request.tools) :
    (∀ config body, OpenAIClient.makeRequest config request = .ok body →
      OpenAIClient.Precedence config request body) ∧
    (∀ config body, AnthropicClient.makeRequest config request = .ok body →
      AnthropicClient.Precedence config request body) ∧
    (∀ config body, GeminiClient.makeRequest json config request = .ok body →
      GeminiClient.Precedence json config request body) ∧
    ∀ config body, CompatibleClient.makeRequest config request = .ok body →
      CompatibleClient.Precedence config request body :=
  ⟨fun _ _ => OpenAIClient.makeRequest_precedence htools, fun _ _ => AnthropicClient.makeRequest_precedence htools,
    fun _ _ => GeminiClient.makeRequest_precedence htools, fun _ _ => CompatibleClient.makeRequest_precedence htools⟩

def customTool : ToolSpec :=
  { name := "weather", description := "Current weather", providerOptions := .ofMembers [("type", .string "custom")] }

def toolRequest : AIRequest :=
  { sessionId := "session-1", runId := "run-1", systemMessage := some "", messages := [.userText "hello"]
    tools := [customTool]
    options := { providerOptions := .ofMembers [("system", .string "Answer in French."), ("stream", .boolean true)] } }

theorem requests_keep_precedence_tool :
    ∃ body, OpenAIClient.makeRequest { model := { provider := .openai, id := "model" } } toolRequest = .ok body ∧
      OpenAIClient.Precedence { model := { provider := .openai, id := "model" } } toolRequest body := by
  have htools : DeclarableTools toolRequest.tools := by
    intro tool htool
    rw [List.mem_singleton.mp htool]
    rfl
  exact ⟨_, rfl, (requests_keep_precedence ⟨fun _ => none, fun _ => ""⟩ toolRequest htools).1 _ _ rfl⟩

/-- An OpenAI declaration does not take its type from the tool's options, and an empty system message does not
replace Anthropic's `system` option. -/
theorem precedence_exceptions :
    (∃ body declaration, OpenAIClient.makeRequest { model := { provider := .openai, id := "model" } } toolRequest =
        .ok body ∧ body.find? "tools" = some (.array [declaration]) ∧
      declaration.find? "type" = some (.string "function") ∧
      customTool.providerOptions.find? "type" = some (.string "custom")) ∧
    ∃ body, AnthropicClient.makeRequest { model := { provider := .anthropic, id := "model" } } toolRequest = .ok body ∧
      toolRequest.systemMessage = some "" ∧ body.find? "system" = some (.string "Answer in French.") :=
  ⟨⟨_, _, rfl, rfl, rfl, rfl⟩, _, rfl, rfl, rfl⟩

end NeuralPlus
