import NeuralPlus.GeminiSound
import NeuralPlus.OpenAISound
import NeuralPlus.ParserSound

/-!
# Calls and results across clients

A session that other clients continued holds responses in other formats. Each
adapter writes their calls in its own, and the results still follow them.
-/

namespace NeuralPlus

open Fallible Emission

/-- Contents of another provider's responses that an adapter can encode are no extensions of its own. -/
theorem Adapter.provider_ne_of_response {json : JsonText} {request : AIRequest} {adapter : Adapter}
    {response : HttpResponse} {r : AIResponse} (hparse : adapter.parseResponse json request response = .ok r)
    {own : Provider} (hown : adapter.provider ≠ own) {c : Content} (hc : c ∈ r.message.contents)
    (htype : c.type = .extension) : c.provider ≠ own.toString := by
  have hformed := (adapter.parseResponse_ends json request response).returned hparse
  rw [((hformed.contents c hc).extension htype).1]
  intro h
  cases hadapter : adapter.provider <;> cases own <;> simp_all [Provider.toString]

/-! ## Anthropic -/

def functionCallBody : JsonValue :=
  .ofMembers [("output", .array [.ofMembers [("type", .string "function_call"), ("call_id", .string "c1"),
    ("name", .string "weather"), ("arguments", .string "\x7b\x7d")]]), ("status", .string "completed")]

def takenOver (client : BuiltInClient) : List ClientCall :=
  [{ client := OpenAIClient.sampleClient, call := AnthropicClient.sampleCall },
   { client, call := { AnthropicClient.sampleCall with send := fun _ _ => .error (.transport "connection reset") } }]

def takenOverRequest (client : BuiltInClient) : AIRequest :=
  ((ClientCall.requests (fixedText functionCallBody) { id := "session-1" } (takenOver client))[2]?).getD sampleRequest

namespace AnthropicClient

theorem isToolUse_of_type {block : JsonValue} {type : String} (h : block.find? "type" = some (.string type))
    (htype : type ≠ "tool_use") : isToolUse block = false := by
  unfold isToolUse
  rw [JsonValue.stringField_eq h]
  simpa using htype

theorem isToolUse_contentPart {c : Content} {part : JsonValue} (hforeign : c.type = .extension → c.provider ≠ "anthropic")
    (h : contentPart c = .ok part) : isToolUse part = false := by
  have hdocument : ∀ source, isToolUse (document c source) = false := by
    intro source
    have htype : (document c source).find? "type" = some (.string "document") := by
      unfold document
      rw [find?_setIfSome_ne (by decide)]
      exact JsonValue.find?_ofMembers ..
    exact isToolUse_of_type htype (by decide)
  unfold contentPart at h
  split at h
  · cases h
    exact isToolUse_of_type (JsonValue.find?_ofMembers ..) (by decide)
  · cases h
    exact isToolUse_of_type (JsonValue.find?_ofMembers ..) (by decide)
  · cases h
    exact isToolUse_of_type (JsonValue.find?_ofMembers ..) (by decide)
  · cases h
    exact hdocument _
  · split at h
    · cases h
      exact hdocument _
    · cases h
  · next htype _ =>
    rw [if_neg (hforeign htype)] at h
    cases h
  · cases h

theorem isToolUse_toolUseBlock (call : ToolCall) : isToolUse (toolUseBlock call) = true := by
  unfold isToolUse toolUseBlock
  rw [JsonValue.stringField_eq (JsonValue.find?_ofMembers ..)]
  rfl

theorem callsOf_toolUseBlocks (calls : List ToolCall) : CallsOf (calls.map toolUseBlock) calls := by
  unfold CallsOf
  rw [List.filter_eq_self.mpr (by simp [isToolUse_toolUseBlock]), List.forall₂_map_left_iff, List.forall₂_same]
  intro call _
  exact JsonValue.find?_ofMembers ..

theorem turnOf_response {json : JsonText} {request : AIRequest} {adapter : Adapter} {response : HttpResponse}
    {r : AIResponse} (hparse : adapter.parseResponse json request response = .ok r) (hrole : r.message.role = .assistant)
    (h : Returns (turnOf r.message)) :
    ∃ content, turnOf r.message = .ok (some ("assistant", content)) ∧ CallsOf content r.message.toolCalls := by
  have hforeign : adapter.provider ≠ .anthropic →
      ∃ content, turnOf r.message = .ok (some ("assistant", content)) ∧ CallsOf content r.message.toolCalls := by
    intro hother
    have hnative : nativeContent r.message = none := by
      have htag : r.message.providerMetadata.stringField "provider" ≠ "anthropic" := by
        rw [Adapter.parseResponse_tag hparse]
        cases adapter <;> simp_all [Adapter.tag, Adapter.provider]
      unfold nativeContent nativeMember
      rw [if_neg htag]
    unfold turnOf at h ⊢
    rw [hrole, hnative] at h ⊢
    dsimp only at h ⊢
    rw [returns_bind] at h
    obtain ⟨parts, hparts, _⟩ := h
    rw [hparts]
    refine ⟨_, rfl, ?_⟩
    have hnone : parts.filter isToolUse = [] := by
      rw [List.filter_eq_nil_iff]
      intro part hpart
      obtain ⟨c, hc, hok⟩ := mem_of_forall₂ (mapM_eq_ok hparts).flip part hpart
      rw [isToolUse_contentPart (Adapter.provider_ne_of_response hparse hother hc) hok]
      decide
    unfold CallsOf
    rw [List.filter_append, hnone, List.nil_append]
    exact callsOf_toolUseBlocks _
  cases adapter with
  | openai impl => exact hforeign (by simp [Adapter.provider])
  | anthropic impl =>
    obtain ⟨_, content, parsed, _, _, _, hfold, _, hcalls, hmetadata⟩ := parseResponse_ok hparse
    refine ⟨content, turnOf_native hrole hmetadata, ?_⟩
    rw [hcalls]
    exact callsOf_emitted (foldlM_parsed (fun _ _ _ => parseBlock_emits) hfold)
  | gemini impl => exact hforeign (by simp [Adapter.provider])
  | compatible impl => exact hforeign (by simp [Adapter.provider])

theorem keeps_turnsResolved_any (json : JsonText) (client : BuiltInClient) (call : Call) :
    client.base.Keeps (client.env json call) TurnsResolved where
  input := fun hm hv => hm.input (AIClient.validateInput_ok hv).1
  block := by
    intro messages b _ _ hm hwf hsent
    obtain ⟨response, hparse⟩ := Adapter.generateOnce_ok hsent
    by_cases hreturns : Returns (turnOf b.response.message)
    · obtain ⟨content, hturn, hcalls⟩ := turnOf_response hparse hwf.1 hreturns
      exact hm.block_of hwf hturn hcalls
    · -- a transcript with a message that has no turn is not encoded
      intro turns hturns
      refine absurd ?_ hreturns
      exact (foldlM_returns Turns.trace_returns _ _).mp ⟨turns, hturns⟩ _ (by simp [AIClient.Block.messages])

/-- **In every request an Anthropic client makes, the results of tool uses follow the uses**, whichever clients
continued the session, and however their calls ended. -/
theorem results_follow_foreign_uses {json : JsonText} {session : Session} (hempty : session.messages = [])
    (calls : List ClientCall) : ∀ r ∈ ClientCall.requests json session calls, ∀ (config : AnthropicConfig)
      (body : JsonValue), makeRequest config r = .ok body → ∃ turns, tracedTurns r.messages = .ok turns ∧
        body.find? "messages" = some (.array (turns.map (turnJson "content"))) ∧ Paired turns := by
  intro r hr config body hbody
  have hkeeps : TurnsResolved r.messages := by
    apply ClientCall.keeps_requests (fun c _ => keeps_turnsResolved_any json c.client c.call) _ r hr
    rw [hempty]
    exact turnsResolved_nil
  obtain ⟨messages, hmessages, hfind⟩ := makeRequest_messages hbody
  rw [history_eq] at hmessages
  cases ht : tracedTurns r.messages with
  | error e => rw [ht] at hmessages; cases hmessages
  | ok turns =>
    rw [ht] at hmessages
    obtain rfl := Except.ok.inj hmessages
    exact ⟨turns, rfl, hfind, (hkeeps turns ht).paired⟩

theorem results_follow_foreign_uses_takenOver : ∃ body turns,
    (takenOverRequest sampleClient).messages.length = 4 ∧
    makeRequest { model := sampleClient.base.model } (takenOverRequest sampleClient) = .ok body ∧
    body.find? "messages" = some (.array (turns.map (turnJson "content"))) ∧ turns.length = 3 ∧ Paired turns := by
  have hr : takenOverRequest sampleClient ∈
      ClientCall.requests (fixedText functionCallBody) { id := "session-1" } (takenOver sampleClient) :=
    List.mem_of_getElem? (i := 2) rfl
  have hbody : makeRequest { model := sampleClient.base.model } (takenOverRequest sampleClient) = .ok _ := rfl
  obtain ⟨turns, ht, hfind, hpaired⟩ := results_follow_foreign_uses
    (show ({ id := "session-1" } : Session).messages = [] from rfl) _ _ hr _ _ hbody
  have hlength : (tracedTurns (takenOverRequest sampleClient).messages).map List.length = .ok 3 := rfl
  rw [ht] at hlength
  exact ⟨_, turns, rfl, hbody, hfind, Except.ok.inj hlength, hpaired⟩

end AnthropicClient

/-! ## Gemini -/

namespace GeminiClient

variable {json : JsonText}

def partsAdded (json : JsonText) (message : Message) : Except Exc (List JsonValue) :=
  (turnOf json message).map fun turn => turn.elim [] Prod.snd

def tracedParts (json : JsonText) (messages : List Message) : Except Exc (List (Message × JsonValue)) :=
  Origins.traceAll (partsAdded json) messages

theorem partsAdded_emitted {m : Message} (h : Returns (turnOf json m)) : partsAdded json m = .ok (emitted json m) := by
  obtain ⟨turn, hturn⟩ := h
  unfold partsAdded emitted
  rw [hturn]
  cases turn <;> rfl

/-- The parts of the contents are those of the messages, one message after the other. -/
theorem tracedParts_of_history {messages : List Message} {contents : List JsonValue}
    (h : messages.foldlM (appendHistory json) [] = .ok contents) :
    ∃ parts, tracedParts json messages = .ok parts ∧ partsOf contents = parts.map Prod.snd := by
  have hreturns := turnOf_returns (⟨contents, h⟩ : Returns _)
  rw [partsOf_history h]
  clear h
  induction messages with
  | nil => exact ⟨[], rfl, rfl⟩
  | cons m messages ih =>
    obtain ⟨hm, hmessages⟩ := List.forall_mem_cons.mp hreturns
    obtain ⟨rest, hrest, hmap⟩ := ih hmessages
    refine ⟨(emitted json m).map (Prod.mk m) ++ rest, ?_, ?_⟩
    · refine Origins.traceAll_cons.mpr ⟨_, _, ?_, hrest, rfl⟩
      unfold Origins.label
      rw [partsAdded_emitted hm]
      rfl
    · rw [List.flatMap_cons, hmap]
      simp [Function.comp_def]

def Own (m : Message) : Prop := m.providerMetadata.stringField "provider" = "gemini"

/-- No call of another provider's response has a native form that passes for one of Gemini's. -/
def Plain (m : Message) : Prop := Own m ∨ ∀ call ∈ m.toolCalls, call.providerMetadata.contains "functionCall" = false

def Answered (call : ToolCall) (result : Message × JsonValue) : Prop :=
  result.1.role = .tool ∧ (result.2.member "functionResponse").find? "name" = some (.string call.name)

/-- The two parts have one name and, in Gemini's own response, one id, where no id is an empty one. -/
structure Resolves (m : Message) (call result : Message × JsonValue) : Prop where
  name : ∃ name, (call.2.member "functionCall").find? "name" = some (.string name) ∧
    (result.2.member "functionResponse").find? "name" = some (.string name)
  id : Own m → (call.2.member "functionCall").stringField "id" = (result.2.member "functionResponse").stringField "id"

/-- Parts of users, and of responses directly followed by one result for each call, in order. -/
inductive Exchanges : List (Message × JsonValue) → Prop
  | nil : Exchanges []
  | input {parts own : List (Message × JsonValue)} : Exchanges parts → (∀ b ∈ own, b.1.role = .user) →
      Exchanges (parts ++ own)
  | response {parts own results : List (Message × JsonValue)} {m : Message} : Exchanges parts → m.role = .assistant →
      (∀ b ∈ own, b.1 = m) → List.Forall₂ Answered m.toolCalls results →
      (Plain m → List.Forall₂ (Resolves m) (own.filter fun b => isCallPart b.2) results) →
      Exchanges (parts ++ (own ++ results))

structure CarriesCall (m : Message) (part : JsonValue) (answer : Message) : Prop where
  name : (part.member "functionCall").find? "name" = some (.string answer.toolName)
  id : Own m → (part.member "functionCall").stringField "id" =
    if providerSuppliedId answer then answer.toolCallId else ""

theorem carriesCall_nativeCall {request : AIRequest} {m answer : Message} {n : Nat} {part : JsonValue}
    (hcall : CheckedCall (part.member "functionCall"))
    (hanswer : AIClient.Answers (nativeCall json request n part) answer) : CarriesCall m part answer := by
  obtain ⟨_, hid, hname, hmetadata, _⟩ := hanswer
  refine ⟨?_, ?_⟩
  · rw [hname]
    exact JsonValue.find?_of_stringField hcall.name
  · intro _
    have hsupplied : providerSuppliedId answer = ((part.member "functionCall").stringField "id" != "") := by
      unfold providerSuppliedId
      rw [hmetadata]
      rfl
    rw [hsupplied, hid]
    unfold nativeCall parseFunctionCall
    by_cases hempty : (part.member "functionCall").stringField "id" = ""
    · simp [hempty]
    · simp [hempty]

theorem carriesCall_emitted {request : AIRequest} {m : Message} {n : Nat} {parts : List JsonValue} {cs : List Content}
    {calls : List ToolCall} (h : Emitted (PartEmits json request) n parts cs calls) {answers : List Message}
    (hanswers : List.Forall₂ AIClient.Answers calls answers) :
    List.Forall₂ (CarriesCall m) (parts.filter isCallPart) answers := by
  induction h generalizing answers with
  | nil =>
    cases hanswers
    exact .nil
  | @cons n part parts cs cs' ks ks' hpart _ ih =>
    obtain ⟨hchecked, heach⟩ := hpart
    unfold OneEach at heach
    by_cases hcall : isCallPart part = true
    · rw [if_pos hcall] at heach
      obtain ⟨_, rfl⟩ := heach
      cases hanswers with
      | cons hanswer hanswers =>
        rw [List.filter_cons_of_pos hcall]
        exact .cons (carriesCall_nativeCall (hchecked hcall) hanswer) (ih hanswers)
    · rw [if_neg hcall] at heach
      obtain ⟨_, rfl⟩ := heach
      rw [List.filter_cons_of_neg hcall]
      exact ih hanswers

theorem carriesCall_functionCall {m answer : Message} {call : ToolCall} (hforeign : ¬ Own m)
    (hplain : call.providerMetadata.contains "functionCall" = false) (hanswer : AIClient.Answers call answer) :
    isCallPart (functionCall call) = true ∧ CarriesCall m (functionCall call) answer := by
  unfold functionCall
  rw [if_neg (by simp [hplain])]
  refine ⟨?_, ?_, fun hown => absurd hown hforeign⟩
  · unfold isCallPart JsonValue.contains
    rw [JsonValue.find?_ofMembers, JsonValue.find?_ofMembers]
    rfl
  · rw [JsonValue.member_singleton, find?_setIfSome_ne (by decide), JsonValue.find?_ofMembers, hanswer.2.2.1]
    rfl

theorem carriesCall_functionCalls {m : Message} {calls : List ToolCall} {answers : List Message} (hforeign : ¬ Own m)
    (hplain : ∀ call ∈ calls, call.providerMetadata.contains "functionCall" = false)
    (hanswers : List.Forall₂ AIClient.Answers calls answers) :
    List.Forall₂ (CarriesCall m) ((calls.map functionCall).filter isCallPart) answers := by
  induction hanswers with
  | nil => exact .nil
  | cons hanswer _ ih =>
    obtain ⟨hcall, hplain⟩ := List.forall_mem_cons.mp hplain
    obtain ⟨hpart, hcarries⟩ := carriesCall_functionCall hforeign hcall hanswer
    rw [List.map_cons, List.filter_cons_of_pos hpart]
    exact .cons hcarries (ih hplain)

theorem isCallPart_part {c : Content} {p : JsonValue} (hforeign : c.type = .extension → c.provider ≠ "gemini")
    (h : part c = .ok p) : isCallPart p = false := by
  rw [Bool.eq_false_iff]
  intro hcall
  have hextension : c.type = .extension := ((isCall_part h).mp (by simp_all [isCallPart, isCall])).1
  unfold part at h
  rw [hextension, if_neg (hforeign hextension)] at h
  split at h <;> simp_all

theorem partsAdded_native {m : Message} {content : JsonValue} (hrole : m.role = .assistant)
    (hnative : nativeContent m = some content) : partsAdded json m = .ok (arrayMember content "parts") := by
  unfold partsAdded turnOf arrayMember JsonValue.member
  rw [hrole]
  dsimp only
  rw [hnative]
  cases hparts : content.find? "parts" with
  | none =>
    dsimp only
    rw [hparts]
    rfl
  | some parts =>
    dsimp only
    rw [hparts]
    cases parts <;> rfl

theorem partsAdded_response {request : AIRequest} {adapter : Adapter} {response : HttpResponse} {r : AIResponse}
    (hparse : adapter.parseResponse json request response = .ok r) (hrole : r.message.role = .assistant)
    {own : List JsonValue} (h : partsAdded json r.message = .ok own) (hplain : Plain r.message) {answers : List Message}
    (hanswers : List.Forall₂ AIClient.Answers r.message.toolCalls answers) :
    List.Forall₂ (CarriesCall r.message) (own.filter isCallPart) answers := by
  have hforeign : adapter.provider ≠ .gemini → List.Forall₂ (CarriesCall r.message) (own.filter isCallPart) answers := by
    intro hother
    have htag : ¬ Own r.message := by
      unfold Own
      rw [Adapter.parseResponse_tag hparse]
      cases adapter <;> simp_all [Adapter.tag, Adapter.provider]
    have hnative : nativeContent r.message = none := by
      unfold Own at htag
      unfold nativeContent nativeMember
      rw [if_neg htag]
    unfold partsAdded turnOf at h
    rw [hrole] at h
    dsimp only at h
    rw [hnative] at h
    cases hparts : parts r.message with
    | error e =>
      rw [hparts] at h
      cases h
    | ok added =>
      rw [hparts] at h
      obtain rfl : added ++ r.message.toolCalls.map functionCall = own := Except.ok.inj h
      have hnone : added.filter isCallPart = [] := by
        rw [List.filter_eq_nil_iff]
        intro p hp
        obtain ⟨c, hc, hok⟩ := mem_of_forall₂ (mapM_eq_ok hparts).flip p hp
        rw [isCallPart_part (Adapter.provider_ne_of_response hparse hother hc) hok]
        decide
      rw [List.filter_append, hnone, List.nil_append]
      exact carriesCall_functionCalls htag (hplain.resolve_left htag) hanswers
  cases adapter with
  | openai impl => exact hforeign (by simp [Adapter.provider])
  | anthropic impl => exact hforeign (by simp [Adapter.provider])
  | compatible impl => exact hforeign (by simp [Adapter.provider])
  | gemini impl =>
    obtain ⟨body, content, hbody, hcontent, hobject, _, hmetadata⟩ := parseResponse_ok hparse
    obtain ⟨body', hbody', hemitted⟩ := parseResponse_items hparse
    obtain rfl : body = body' := Option.some.inj (hbody.symm.trans hbody')
    rw [partsAdded_native hrole (nativeContent_of_metadata hobject hmetadata)] at h
    rw [hcontent, Except.ok.inj h] at hemitted
    exact carriesCall_emitted hemitted hanswers

/-- Each result is the function response of its answer, whatever the answers are matched with. -/
theorem results_of_answers {α : Type} {R : α → Message → Prop} {matched : List α} {answers : List Message}
    (h : List.Forall₂ R matched answers) : (∀ answer ∈ answers, answer.role = .tool) →
    ∀ {results : List (Message × JsonValue)}, tracedParts json answers = .ok results →
      List.Forall₂ (fun a result => ∃ answer responseParts, R a answer ∧ answer.role = .tool ∧
        result = (answer, functionResponse json answer responseParts)) matched results := by
  induction h with
  | nil =>
    intro _ results hresults
    cases hresults
    exact .nil
  | @cons a answer matched answers hanswer _ ih =>
    intro hroles results hresults
    obtain ⟨hrole, hroles⟩ := List.forall_mem_cons.mp hroles
    obtain ⟨first, rest, hfirst, hrest, rfl⟩ := Origins.traceAll_cons.mp hresults
    obtain ⟨added, hadded, rfl⟩ := Origins.label_ok hfirst
    unfold partsAdded turnOf at hadded
    rw [hrole] at hadded
    cases hparts : toolResponseParts answer with
    | error e =>
      rw [hparts] at hadded
      cases hadded
    | ok responseParts =>
      rw [hparts] at hadded
      obtain rfl : [functionResponse json answer responseParts] = added := Except.ok.inj hadded
      exact .cons ⟨answer, responseParts, hanswer, hrole, rfl⟩ (ih hroles hrest)

theorem answered_functionResponse {call : ToolCall} {answer : Message} (h : AIClient.Answers call answer)
    (responseParts : List JsonValue) : Answered call (answer, functionResponse json answer responseParts) :=
  ⟨h.1, by rw [← h.2.2.1]; exact (find?_functionResponse json answer responseParts).1⟩

theorem resolves_functionResponse {m answer : Message} {part : JsonValue} (h : CarriesCall m part answer)
    (responseParts : List JsonValue) : Resolves m (m, part) (answer, functionResponse json answer responseParts) := by
  obtain ⟨hname, hid⟩ := find?_functionResponse json answer responseParts
  refine ⟨⟨answer.toolName, h.name, hname⟩, ?_⟩
  intro hown
  rw [h.id hown]
  unfold JsonValue.stringField
  rw [hid]
  by_cases hsupplied : providerSuppliedId answer = true
  · rw [if_pos hsupplied, if_pos hsupplied]
  · rw [if_neg hsupplied, if_neg hsupplied]

theorem keeps_exchanges (client : BuiltInClient) (call : Call) :
    client.base.Keeps (client.env json call) (Traced (partsAdded json) Exchanges) := by
  apply client.keeps_traced json call .input
  intro request response parts own results b hparts hwf hparse hown hresults
  have hroles : ∀ answer ∈ b.answers, answer.role = .tool := AIClient.role_of_answers hwf.2
  refine .response hparts hwf.1 ?_ ?_ ?_
  · intro part hpart
    obtain ⟨_, _, rfl⟩ := List.mem_map.mp hpart
    rfl
  · refine (results_of_answers hwf.2 hroles hresults).imp ?_
    rintro call _ ⟨answer, responseParts, hanswer, _, rfl⟩
    exact answered_functionResponse hanswer responseParts
  · intro hplain
    rw [List.filter_map, List.forall₂_map_left_iff]
    refine (results_of_answers (partsAdded_response hparse hwf.1 hown hplain hwf.2) hroles hresults).imp ?_
    rintro part _ ⟨answer, responseParts, hcarries, _, rfl⟩
    exact resolves_functionResponse hcarries responseParts

/-- **In every request a Gemini client makes, the parts of a response are followed by the results of its calls**, one for
each in order, whichever clients continued the session, and however their calls ended. -/
theorem responses_follow_calls {session : Session} (hempty : session.messages = [])
    (calls : List ClientCall) : ∀ r ∈ ClientCall.requests json session calls, ∀ (config : GeminiConfig)
      (body : JsonValue), makeRequest json config r = .ok body → ∃ contents parts,
        body.find? "contents" = some (.array contents) ∧ tracedParts json r.messages = .ok parts ∧
        partsOf contents = parts.map Prod.snd ∧ Exchanges parts := by
  intro r hr config body hbody
  have hkeeps : Traced (partsAdded json) Exchanges r.messages := by
    apply ClientCall.keeps_requests (fun c _ => keeps_exchanges c.client c.call) _ r hr
    rw [hempty]
    exact traced_nil .nil
  obtain ⟨contents, hcontents, hfind⟩ := makeRequest_contents hbody
  obtain ⟨parts, hparts, hmap⟩ := tracedParts_of_history hcontents
  exact ⟨contents, parts, hfind, hparts, hmap, hkeeps parts hparts⟩

def geminiModel : ModelDescriptor := { provider := .gemini, id := "model" }

def sampleClient : BuiltInClient :=
  { base := { AIClient.plainClient with model := geminiModel }
    adapter := .gemini { config := { model := geminiModel }, endpoint := "", apiKey := "key", valid := rfl }
    model_eq := rfl }

theorem responses_follow_calls_takenOver : ∃ body contents parts,
    (takenOverRequest sampleClient).messages.length = 4 ∧
    makeRequest (fixedText functionCallBody) { model := geminiModel } (takenOverRequest sampleClient) = .ok body ∧
    body.find? "contents" = some (.array contents) ∧ partsOf contents = parts.map Prod.snd ∧
    parts.length = 4 ∧ Exchanges parts := by
  have hr : takenOverRequest sampleClient ∈
      ClientCall.requests (fixedText functionCallBody) { id := "session-1" } (takenOver sampleClient) :=
    List.mem_of_getElem? (i := 2) rfl
  have hbody : makeRequest (fixedText functionCallBody) { model := geminiModel } (takenOverRequest sampleClient) =
    .ok _ := rfl
  obtain ⟨contents, parts, hfind, ht, hmap, hexchanges⟩ := responses_follow_calls
    (show ({ id := "session-1" } : Session).messages = [] from rfl) _ _ hr _ _ hbody
  have hlength : (tracedParts (fixedText functionCallBody) (takenOverRequest sampleClient).messages).map List.length =
    .ok 4 := rfl
  rw [ht] at hlength
  exact ⟨_, contents, parts, rfl, hbody, hfind, hmap, Except.ok.inj hlength, hexchanges⟩

end GeminiClient

/-! ## OpenAI-compatible -/

namespace CompatibleClient

def entriesOf (message : Message) : Except Exc (List JsonValue) :=
  match message.role with
  | .system => .ok []
  | .assistant =>
    match nativeMessage message with
    | some native => do return [← replayMessage native]
    | none => do return [withToolCalls (← roleMessage "assistant" message) message.toolCalls]
  | .tool => do return [toolEntry message (← toolContent message)]
  | .user => do return [← roleMessage "user" message]

theorem appendHistory_eq (entries : List JsonValue) (m : Message) :
    appendHistory entries m = (entriesOf m).map (entries ++ ·) := by
  unfold appendHistory entriesOf
  cases m.role with
  | system => exact congrArg Except.ok (List.append_nil entries).symm
  | user => cases roleMessage "user" m <;> rfl
  | tool => cases toolContent m <;> rfl
  | assistant =>
    cases nativeMessage m with
    | some native =>
      dsimp only
      cases replayMessage native <;> rfl
    | none =>
      dsimp only
      cases roleMessage "assistant" m <;> rfl

def tracedEntries (messages : List Message) : Except Exc (List (Message × JsonValue)) :=
  Origins.traceAll entriesOf messages

def Legacy (call : ToolCall) : Prop := call.providerMetadata.find? "legacy_function_call" = some (.boolean true)

/-- The result was made from a tool message and carries the id of the call or, of a legacy call, its name and no id. -/
structure Resolves (call : ToolCall) (result : Message × JsonValue) : Prop where
  tool : result.1.role = .tool
  legacy : Legacy call → result.2.find? "role" = some (.string "function") ∧
    result.2.find? "name" = some (.string call.name) ∧ result.2.find? "tool_call_id" = none
  modern : ¬ Legacy call → result.2.find? "role" = some (.string "tool") ∧
    result.2.find? "tool_call_id" = some (.string call.id)

def NamesCalls (m : Message) (entry : JsonValue) : Prop := ∀ call ∈ m.toolCalls, ¬ Legacy call → Names entry call.id

/-- Entries of users, and of responses directly followed by one result for each call, in order. -/
inductive Exchanges : List (Message × JsonValue) → Prop
  | nil : Exchanges []
  | input {entries own : List (Message × JsonValue)} : Exchanges entries → (∀ b ∈ own, b.1.role = .user) →
      Exchanges (entries ++ own)
  | response {entries results : List (Message × JsonValue)} {m : Message} {entry : JsonValue} : Exchanges entries →
      m.role = .assistant → NamesCalls m entry → List.Forall₂ Resolves m.toolCalls results →
      Exchanges (entries ++ (m, entry) :: results)

theorem resolves_toolEntry {call : ToolCall} {answer : Message} (h : AIClient.Answers call answer) (content : String) :
    Resolves call (answer, toolEntry answer content) := by
  obtain ⟨hrole, hid, hname, hmetadata, _⟩ := h
  refine ⟨hrole, ?_, ?_⟩
  · intro hlegacy
    unfold toolEntry isLegacy
    rw [hmetadata, if_pos (by simpa [Legacy] using hlegacy), ← hname]
    exact ⟨find?_role _ _, JsonValue.find?_ofMembers .., JsonValue.find?_ofMembers ..⟩
  · intro hmodern
    unfold toolEntry isLegacy
    rw [hmetadata, if_neg (by simpa [Legacy] using hmodern), ← hid]
    exact ⟨find?_role _ _, JsonValue.find?_ofMembers ..⟩

theorem names_withToolCalls {entry : JsonValue} (hentry : entry.acceptsKey = true) {calls : List ToolCall} {call : ToolCall}
    (hcall : call ∈ calls) : Names (withToolCalls entry calls) call.id := by
  unfold withToolCalls
  rw [if_neg (List.ne_nil_of_mem hcall)]
  refine ⟨_, toolCallEntry call, ?_, List.mem_map_of_mem hcall, JsonValue.find?_ofMembers ..⟩
  rw [JsonValue.find?_set hentry, if_pos rfl]

/-- Whatever client a response came from, its entry names its calls. -/
theorem entriesOf_response {json : JsonText} {request : AIRequest} {adapter : Adapter} {response : HttpResponse}
    {r : AIResponse} (hparse : adapter.parseResponse json request response = .ok r) (hrole : r.message.role = .assistant)
    {own : List JsonValue} (h : entriesOf r.message = .ok own) : ∃ entry, own = [entry] ∧ NamesCalls r.message entry := by
  unfold entriesOf at h
  rw [hrole] at h
  cases hnative : nativeMessage r.message with
  | none =>
    simp only [hnative, bind_eq_ok, pure_eq_ok, Except.ok.injEq] at h
    obtain ⟨entry, hentry, rfl⟩ := h
    refine ⟨_, rfl, ?_⟩
    intro call hcall _
    exact names_withToolCalls (JsonValue.acceptsKey_of_isObject (find?_roleMessage hentry).1) hcall
  | some native =>
    have hcompatible : adapter.tag = "openai_compatible" := by
      rw [← Adapter.parseResponse_tag hparse]
      unfold nativeMessage nativeMember at hnative
      by_contra hother
      rw [if_neg hother] at hnative
      cases hnative
    cases adapter with
    | openai impl => exact absurd (show "openai" = "openai_compatible" from hcompatible) (by decide)
    | anthropic impl => exact absurd (show "anthropic" = "openai_compatible" from hcompatible) (by decide)
    | gemini impl => exact absurd (show "gemini" = "openai_compatible" from hcompatible) (by decide)
    | compatible impl =>
      obtain ⟨native', hnative', _, _, hreplay, hcalls⟩ := parseResponse_calls hparse
      rw [nativeAnswer, if_pos hrole, hnative] at hnative'
      obtain rfl := Option.some.inj hnative'
      simp only [hnative, hreplay, ok_bind, pure_eq_ok, Except.ok.injEq] at h
      refine ⟨_, h.symm, ?_⟩
      intro call hcall hmodern
      exact names_withAudioId.mpr (hcalls call hcall hmodern)

theorem results_of_answers {calls : List ToolCall} {answers : List Message}
    (hanswers : List.Forall₂ AIClient.Answers calls answers) :
    ∀ {results : List (Message × JsonValue)}, tracedEntries answers = .ok results → List.Forall₂ Resolves calls results := by
  induction hanswers with
  | nil =>
    intro results hresults
    cases hresults
    exact .nil
  | cons hanswer _ ih =>
    intro results hresults
    obtain ⟨first, rest, hfirst, hrest, rfl⟩ := Origins.traceAll_cons.mp hresults
    obtain ⟨entries, hentries, rfl⟩ := Origins.label_ok hfirst
    unfold entriesOf at hentries
    simp only [hanswer.1, bind_eq_ok, pure_eq_ok, Except.ok.injEq] at hentries
    obtain ⟨content, _, rfl⟩ := hentries
    exact .cons (resolves_toolEntry hanswer content) (ih hrest)

theorem keeps_exchanges (json : JsonText) (client : BuiltInClient) (call : Call) :
    client.base.Keeps (client.env json call) (Traced entriesOf Exchanges) := by
  apply client.keeps_traced json call .input
  intro request response entries own results b hentries hwf hparse hown hresults
  obtain ⟨entry, rfl, hnames⟩ := entriesOf_response hparse hwf.1 hown
  exact .response hentries hwf.1 hnames (results_of_answers hwf.2 hresults)

/-- **In every request an OpenAI-compatible client makes, the results of a response's calls are the entries behind it**,
one for each in order, whichever clients continued the session, and however their calls ended. -/
theorem results_follow_calls {json : JsonText} {session : Session} (hempty : session.messages = [])
    (calls : List ClientCall) : ∀ r ∈ ClientCall.requests json session calls, ∀ (config : OpenAICompatibleConfig)
      (body : JsonValue), makeRequest config r = .ok body → ∃ entries, tracedEntries r.messages = .ok entries ∧
        body.find? "messages" = some (.array (systemEntry (systemInstruction r) ++ entries.map Prod.snd)) ∧
        Exchanges entries := by
  intro r hr config body hbody
  have hkeeps : Traced entriesOf Exchanges r.messages := by
    apply ClientCall.keeps_requests (fun c _ => keeps_exchanges json c.client c.call) _ r hr
    rw [hempty]
    exact traced_nil .nil
  obtain ⟨messages, hmessages, hfind⟩ := makeRequest_messages hbody
  rw [Origins.foldlM_eq_traced appendHistory_eq] at hmessages
  cases ht : Origins.traceAll entriesOf r.messages with
  | error e => rw [ht] at hmessages; cases hmessages
  | ok entries =>
    rw [ht] at hmessages
    obtain rfl := Except.ok.inj hmessages
    exact ⟨entries, ht, hfind, hkeeps entries ht⟩

theorem results_follow_calls_takenOver : ∃ body entries,
    (takenOverRequest localClient).messages.length = 4 ∧
    makeRequest { model := localModel, baseUrl := "" } (takenOverRequest localClient) = .ok body ∧
    body.find? "messages" = some (.array (entries.map Prod.snd)) ∧ entries.length = 4 ∧ Exchanges entries := by
  have hr : takenOverRequest localClient ∈
      ClientCall.requests (fixedText functionCallBody) { id := "session-1" } (takenOver localClient) :=
    List.mem_of_getElem? (i := 2) rfl
  have hbody : makeRequest { model := localModel, baseUrl := "" } (takenOverRequest localClient) = .ok _ := rfl
  obtain ⟨entries, ht, hfind, hexchanges⟩ := results_follow_calls
    (show ({ id := "session-1" } : Session).messages = [] from rfl) _ _ hr _ _ hbody
  have hlength : (tracedEntries (takenOverRequest localClient).messages).map List.length = .ok 4 := rfl
  rw [ht] at hlength
  exact ⟨_, entries, rfl, hbody, hfind, Except.ok.inj hlength, hexchanges⟩

end CompatibleClient

end NeuralPlus
