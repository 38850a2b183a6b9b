import NeuralPlus.AppendOnly
import NeuralPlus.ParsedItems

/-!
# Tool outputs on the OpenAI wire

The `input` array is one list of items. Whichever clients have run on the
session, each response's function calls are answered before anything else of
the history: one output for each, in their order, made from a tool message.
-/

namespace NeuralPlus

open Fallible Emission

/-! ## Which adapter a response came from -/

def Adapter.tag : Adapter → String
  | openai _ => "openai"
  | anthropic _ => "anthropic"
  | gemini _ => "gemini"
  | compatible _ => "openai_compatible"

theorem stringField_nativeMetadata (provider key : String) (value : JsonValue) :
    (nativeMetadata provider key value).stringField "provider" = provider := by
  unfold nativeMetadata
  exact JsonValue.stringField_eq (by rw [JsonValue.find?_ofMembers]; rfl)

theorem Adapter.parseResponse_tag {json : JsonText} {request : AIRequest} {adapter : Adapter} {response : HttpResponse}
    {r : AIResponse} (h : adapter.parseResponse json request response = .ok r) :
    r.message.providerMetadata.stringField "provider" = adapter.tag := by
  cases adapter with
  | openai impl =>
    obtain ⟨_, _, _, _, _, hm⟩ := OpenAIClient.parseResponse_ok h
    rw [hm, stringField_nativeMetadata]
    rfl
  | anthropic impl =>
    obtain ⟨_, _, _, _, _, _, _, _, _, hm⟩ := AnthropicClient.parseResponse_ok h
    rw [hm, stringField_nativeMetadata]
    rfl
  | gemini impl =>
    obtain ⟨_, _, _, _, _, _, hm⟩ := GeminiClient.parseResponse_ok h
    rw [hm, stringField_nativeMetadata]
    rfl
  | compatible impl =>
    obtain ⟨_, _, _, _, _, _, _, hm⟩ := CompatibleClient.parseResponse_ok h
    rw [hm, stringField_nativeMetadata]
    rfl

namespace OpenAIClient

/-! ## What a message adds -/

def itemsOf (message : Message) : Except Exc (List JsonValue) :=
  match message.role with
  | .assistant =>
    match nativeOutput message with
    | some output => .ok output
    | none => do return (← assistantContent message) ++ message.toolCalls.map functionCall
  | .tool => do
    return [.ofMembers [("type", .string "function_call_output"), ("call_id", .string message.toolCallId),
      ("output", ← toolOutput message)]]
  | .system => do return [← roleMessage "developer" message]
  | .user => do return [← roleMessage "user" message]

theorem appendHistory_eq (input : List JsonValue) (m : Message) :
    appendHistory input m = (itemsOf m).map (input ++ ·) := by
  unfold appendHistory itemsOf
  cases m.role with
  | assistant =>
    cases nativeOutput m with
    | some output => rfl
    | none =>
      dsimp only
      cases assistantContent m with
      | error e => rfl
      | ok content => exact congrArg Except.ok (List.append_assoc ..)
  | tool => cases toolOutput m <;> rfl
  | system => cases roleMessage "developer" m <;> rfl
  | user => cases roleMessage "user" m <;> rfl

def tracedItems (messages : List Message) : Except Exc (List (Message × JsonValue)) :=
  Origins.traceAll itemsOf messages

theorem history_eq (messages : List Message) :
    messages.foldlM appendHistory [] = (tracedItems messages).map fun items => items.map Prod.snd :=
  Origins.foldlM_eq_traced appendHistory_eq messages []

/-! ## Calls and their outputs -/

def isCall (item : JsonValue) : Bool := item.stringField "type" = "function_call"

/-- The output was made from a tool message and carries the id of the call. -/
def Resolves (call output : Message × JsonValue) : Prop :=
  output.1.role = .tool ∧ output.2.find? "type" = some (.string "function_call_output") ∧
    ∃ id, call.2.find? "call_id" = some (.string id) ∧ output.2.find? "call_id" = some (.string id)

/-- An input made of user items, and of responses directly followed by one output for each call, in order. -/
inductive Exchanges : List (Message × JsonValue) → Prop
  | nil : Exchanges []
  | input {items own : List (Message × JsonValue)} : Exchanges items → (∀ b ∈ own, b.1.role = .user) →
      Exchanges (items ++ own)
  | response {items own outputs : List (Message × JsonValue)} : Exchanges items → (∀ b ∈ own, b.1.role = .assistant) →
      List.Forall₂ Resolves (own.filter fun b => isCall b.2) outputs → Exchanges (items ++ (own ++ outputs))

def callsWith (id : String) (items : List (Message × JsonValue)) : Nat :=
  items.countP fun b => b.1.role = .assistant ∧ isCall b.2 ∧ b.2.stringField "call_id" = id

def outputsWith (id : String) (items : List (Message × JsonValue)) : Nat :=
  items.countP fun b => b.1.role = .tool ∧ b.2.stringField "call_id" = id

theorem callsWith_append (id : String) (a b : List (Message × JsonValue)) :
    callsWith id (a ++ b) = callsWith id a + callsWith id b := List.countP_append

theorem outputsWith_append (id : String) (a b : List (Message × JsonValue)) :
    outputsWith id (a ++ b) = outputsWith id a + outputsWith id b := List.countP_append

theorem outputsWith_of_role {id : String} {items : List (Message × JsonValue)} (h : ∀ b ∈ items, b.1.role ≠ .tool) :
    outputsWith id items = 0 := by
  unfold outputsWith
  rw [List.countP_eq_zero]
  intro b hb
  simp [h b hb]

theorem callsWith_of_role {id : String} {items : List (Message × JsonValue)} (h : ∀ b ∈ items, b.1.role ≠ .assistant) :
    callsWith id items = 0 := by
  unfold callsWith
  rw [List.countP_eq_zero]
  intro b hb
  simp [h b hb]

theorem role_of_resolves {calls outputs : List (Message × JsonValue)} (h : List.Forall₂ Resolves calls outputs) :
    ∀ b ∈ outputs, b.1.role = .tool := by
  induction h with
  | nil => exact fun b hb => absurd hb List.not_mem_nil
  | cons hb _ ih => exact List.forall_mem_cons.mpr ⟨hb.1, ih⟩

theorem callsWith_eq_outputsWith {own outputs : List (Message × JsonValue)} (hown : ∀ b ∈ own, b.1.role = .assistant)
    (h : List.Forall₂ Resolves (own.filter fun b => isCall b.2) outputs) (id : String) :
    callsWith id own = outputsWith id outputs := by
  have hcalls : callsWith id own =
      (own.filter fun b => isCall b.2).countP fun b => b.2.stringField "call_id" = id := by
    unfold callsWith
    rw [List.countP_filter]
    apply List.countP_congr
    intro b hb
    simp [hown b hb, and_comm]
  rw [hcalls]
  generalize own.filter (fun b => isCall b.2) = calls at h
  clear hcalls hown
  unfold outputsWith
  induction h with
  | nil => rfl
  | cons hb _ ih =>
    obtain ⟨hrole, _, id', hcall, houtput⟩ := hb
    rw [List.countP_cons, List.countP_cons, ih, JsonValue.stringField_eq hcall, JsonValue.stringField_eq houtput, hrole]
    simp

/-- Every call has an output, and no output comes before its call. -/
structure Balanced (items : List (Message × JsonValue)) : Prop where
  answered : ∀ id, callsWith id items = outputsWith id items
  called : ∀ id before, before <+: items → outputsWith id before ≤ callsWith id before

theorem Exchanges.balanced {items : List (Message × JsonValue)} (h : Exchanges items) : Balanced items := by
  induction h with
  | nil =>
    refine ⟨fun _ => rfl, ?_⟩
    intro id before hbefore
    rw [List.prefix_nil.mp hbefore]
    exact Nat.le_refl _
  | @input items own _ hown ih =>
    have hnone : ∀ id, outputsWith id own = 0 := fun id => outputsWith_of_role fun b hb => by rw [hown b hb]; decide
    have hcalls : ∀ id, callsWith id own = 0 := fun id => callsWith_of_role fun b hb => by rw [hown b hb]; decide
    refine ⟨?_, ?_⟩
    · intro id
      rw [callsWith_append, outputsWith_append, hnone, hcalls, ih.answered]
    · intro id before hbefore
      rcases History.prefix_append_cases hbefore with hbefore | ⟨rest, rfl, hrest⟩
      · exact ih.called id before hbefore
      · have hrestnone : outputsWith id rest = 0 :=
          outputsWith_of_role fun b hb => by rw [hown b (hrest.subset hb)]; decide
        rw [outputsWith_append, callsWith_append, hrestnone, ih.answered]
        omega
  | @response items own outputs _ hown hres ih =>
    have hnone : ∀ id, outputsWith id own = 0 := fun id => outputsWith_of_role fun b hb => by rw [hown b hb]; decide
    have hcalls : ∀ id, callsWith id outputs = 0 :=
      fun id => callsWith_of_role fun b hb => by rw [role_of_resolves hres b hb]; decide
    have heq := callsWith_eq_outputsWith hown hres
    refine ⟨?_, ?_⟩
    · intro id
      simp only [callsWith_append, outputsWith_append, hnone, hcalls, ih.answered, heq]
      omega
    · intro id before hbefore
      rcases History.prefix_append_cases hbefore with hbefore | ⟨rest, rfl, hrest⟩
      · exact ih.called id before hbefore
      · have hrest : outputsWith id rest ≤ callsWith id rest := by
          rcases History.prefix_append_cases hrest with hrest | ⟨rest', rfl, hrest'⟩
          · rw [outputsWith_of_role fun b hb => by rw [hown b (hrest.subset hb)]; decide]
            exact Nat.zero_le _
          · rw [outputsWith_append, callsWith_append, hnone, heq]
            have := hrest'.sublist.countP_le (p := fun b => decide (b.1.role = .tool ∧ b.2.stringField "call_id" = id))
            unfold outputsWith at *
            omega
        rw [outputsWith_append, callsWith_append, ih.answered]
        omega

/-! ## The calls of a response are its items -/

def CallsOf (own : List JsonValue) (calls : List ToolCall) : Prop :=
  List.Forall₂ (fun item call => item.find? "call_id" = some (.string (ToolCall.id call))) (own.filter isCall) calls

theorem callsOf_emitted {json : JsonText} {n : Nat} {output : List JsonValue} {cs : List Content} {calls : List ToolCall}
    (h : Emitted (ItemEmits json fun _ cs => cs = []) n output cs calls) : CallsOf output calls := by
  unfold CallsOf
  induction h with
  | nil => exact .nil
  | @cons n item output cs cs' ks ks' hitem _ ih =>
    cases hitem with
    | call htype hid _ =>
      rw [List.filter_cons_of_pos (by simp [isCall, htype])]
      exact .cons (JsonValue.find?_of_stringField hid) ih
    | message htype _ _ =>
      rw [List.filter_cons_of_neg (by simp [isCall, htype])]
      exact ih
    | image htype _ =>
      rw [List.filter_cons_of_neg (by simp [isCall, htype])]
      exact ih
    | other htype _ =>
      rw [List.filter_cons_of_neg (by simp [isCall]; intro h; simp [itemTypes, h] at htype)]
      exact ih

theorem find?_functionCall {key : String} (hkey : "id" ≠ key) (call : ToolCall) :
    (functionCall call).find? key = OrdMap.find? key [("type", .string "function_call"), ("call_id", .string call.id),
      ("name", .string call.name), ("arguments", .string call.rawArguments)] := by
  unfold functionCall
  rw [find?_setIfSome_ne hkey, JsonValue.find?_ofMembers]

theorem callsOf_functionCalls (calls : List ToolCall) : CallsOf (calls.map functionCall) calls := by
  unfold CallsOf
  have hcall : ∀ call, isCall (functionCall call) = true := by
    intro call
    unfold isCall
    rw [JsonValue.stringField_eq (s := "function_call") (by rw [find?_functionCall (by decide)]; rfl)]
    rfl
  induction calls with
  | nil => exact .nil
  | cons call calls ih =>
    rw [List.map_cons, List.filter_cons_of_pos (hcall call)]
    refine .cons ?_ ih
    rw [find?_functionCall (by decide)]
    rfl

theorem isCall_roleMessage {role : String} {m : Message} {item : JsonValue} (h : roleMessage role m = .ok item) :
    isCall item = false := by
  unfold roleMessage at h
  simp only [bind_eq_ok, pure_eq_ok, Except.ok.injEq] at h
  obtain ⟨content, _, rfl⟩ := h
  have htype : (JsonValue.ofMembers [("role", .string role), ("content", content)]).find? "type" = none := by
    rw [JsonValue.find?_ofMembers]
    rfl
  unfold isCall JsonValue.stringField
  rw [htype]
  rfl

theorem itemsOf_response {json : JsonText} {request : AIRequest} {adapter : Adapter} {response : HttpResponse}
    {r : AIResponse} (hparse : adapter.parseResponse json request response = .ok r) (hrole : r.message.role = .assistant)
    {own : List JsonValue} (h : itemsOf r.message = .ok own) : CallsOf own r.message.toolCalls := by
  have htag := Adapter.parseResponse_tag hparse
  unfold itemsOf at h
  simp only [hrole] at h
  cases hnative : nativeOutput r.message with
  | some output =>
    simp only [hnative, Except.ok.injEq] at h
    subst h
    have hmember : nativeMember r.message "openai" "output" = some (.array output) := by
      unfold nativeOutput at hnative
      split at hnative
      · next found hfound => rw [hfound, Option.some.inj hnative]
      · cases hnative
    have hopenai : adapter.tag = "openai" := by
      rw [← htag]
      unfold nativeMember at hmember
      by_contra hother
      rw [if_neg hother] at hmember
      cases hmember
    cases adapter with
    | openai impl =>
      obtain ⟨body, output₁, hbody, houtput₁, _, hm⟩ := parseResponse_ok hparse
      obtain ⟨body', output₂, cs, hbody', houtput₂, hemitted, _⟩ := parseResponse_items hparse
      rw [nativeMember_of_metadata hm (by decide)] at hmember
      obtain rfl : body = body' := Option.some.inj (hbody.symm.trans hbody')
      rw [houtput₁, hmember] at houtput₂
      obtain rfl : output = output₂ := JsonValue.array.inj (Option.some.inj houtput₂)
      exact callsOf_emitted hemitted
    | anthropic impl => exact absurd (show "anthropic" = "openai" from hopenai) (by decide)
    | gemini impl => exact absurd (show "gemini" = "openai" from hopenai) (by decide)
    | compatible impl => exact absurd (show "openai_compatible" = "openai" from hopenai) (by decide)
  | none =>
    simp only [hnative, bind_eq_ok, pure_eq_ok, Except.ok.injEq] at h
    obtain ⟨content, hcontent, rfl⟩ := h
    have hnone : content.filter isCall = [] := by
      unfold assistantContent at hcontent
      split at hcontent
      · rw [← Except.ok.inj hcontent]
        rfl
      · simp only [bind_eq_ok, pure_eq_ok, Except.ok.injEq] at hcontent
        obtain ⟨item, hitem, rfl⟩ := hcontent
        rw [List.filter_cons_of_neg (by simp [isCall_roleMessage hitem])]
        rfl
    unfold CallsOf
    rw [List.filter_append, hnone, List.nil_append]
    exact callsOf_functionCalls _

/-! ## The inputs of a session -/

theorem outputs_of_answers {calls : List ToolCall} {answers : List Message}
    (hanswers : List.Forall₂ AIClient.Answers calls answers) : ∀ {own : List (Message × JsonValue)},
    List.Forall₂ (fun item call => item.2.find? "call_id" = some (.string (ToolCall.id call))) own calls →
      ∀ {outputs : List (Message × JsonValue)}, tracedItems answers = .ok outputs →
        List.Forall₂ Resolves own outputs := by
  induction hanswers with
  | nil =>
    intro own hown outputs houtputs
    cases hown
    cases houtputs
    exact .nil
  | cons hanswer _ ih =>
    intro own hown outputs houtputs
    cases hown with
    | cons hid hown =>
      obtain ⟨first, rest, hfirst, hrest, rfl⟩ := Origins.traceAll_cons.mp houtputs
      obtain ⟨items, hitems, rfl⟩ := Origins.label_ok hfirst
      obtain ⟨hrole, hcallId, _⟩ := hanswer
      unfold itemsOf at hitems
      simp only [hrole, bind_eq_ok, pure_eq_ok, Except.ok.injEq] at hitems
      obtain ⟨output, _, rfl⟩ := hitems
      refine .cons ⟨hrole, ?_, _, hid, ?_⟩ (ih hown hrest)
      · rw [JsonValue.find?_ofMembers]
        rfl
      · rw [JsonValue.find?_ofMembers, ← hcallId]
        rfl

theorem keeps_exchanges (json : JsonText) (client : BuiltInClient) (call : Call) :
    client.base.Keeps (client.env json call) (Traced itemsOf Exchanges) := by
  apply client.keeps_traced json call .input
  intro request response items own results b hitems hwf hparse hown hresults
  apply Exchanges.response hitems
  · intro b' hb'
    rw [role_of_label b' hb', hwf.1]
  · apply outputs_of_answers hwf.2 _ hresults
    have hcalls := itemsOf_response hparse hwf.1 hown
    unfold CallsOf at hcalls
    rw [List.filter_map, List.forall₂_map_left_iff]
    exact hcalls

/-- **In every request an OpenAI client makes, each function call has its output**, one for each, in their order, right
behind the response that made them: whichever clients continued the session, and however their calls ended. -/
theorem outputs_follow_calls {json : JsonText} {session : Session} (hempty : session.messages = [])
    (calls : List ClientCall) : ∀ r ∈ ClientCall.requests json session calls, ∀ (config : OpenAIConfig) (body : JsonValue),
      makeRequest config r = .ok body → ∃ items, tracedItems r.messages = .ok items ∧
        body.find? "input" = some (.array (items.map Prod.snd)) ∧ Exchanges items ∧ Balanced items := by
  intro r hr config body hbody
  have hkeeps : Traced itemsOf Exchanges r.messages := by
    apply ClientCall.keeps_requests (fun c _ => keeps_exchanges json c.client c.call) _ r hr
    rw [hempty]
    exact traced_nil .nil
  obtain ⟨input, hinput, hfind⟩ := makeRequest_input hbody
  rw [history_eq] at hinput
  cases ht : tracedItems r.messages with
  | error e => rw [ht] at hinput; cases hinput
  | ok items =>
    rw [ht] at hinput
    obtain rfl : items.map Prod.snd = input := Except.ok.inj hinput
    have hexchanges := hkeeps items ht
    exact ⟨items, rfl, hfind, hexchanges, hexchanges.balanced⟩

def sampleClient : BuiltInClient :=
  { base := { AIClient.plainClient with model := { provider := .openai, id := "model" } }
    adapter := .openai { config := { model := { provider := .openai, id := "model" } }, endpoint := "", apiKey := "key",
                         valid := rfl }
    model_eq := rfl }

def handedOver : List ClientCall :=
  [{ client := AnthropicClient.sampleClient, call := AnthropicClient.sampleCall },
   { client := sampleClient
     call := { AnthropicClient.sampleCall with send := fun _ _ => .error (.transport "connection reset") } }]

def handedOverRequest : AIRequest :=
  ((ClientCall.requests (fixedText AnthropicClient.toolUseBody) { id := "session-1" } handedOver)[2]?).getD sampleRequest

theorem outputs_follow_calls_handedOver : ∃ body items,
    handedOverRequest.messages.length = 4 ∧
    makeRequest { model := sampleClient.base.model } handedOverRequest = .ok body ∧
    body.find? "input" = some (.array (items.map Prod.snd)) ∧ items.length = 4 ∧ Exchanges items ∧ Balanced items := by
  have hr : handedOverRequest ∈
      ClientCall.requests (fixedText AnthropicClient.toolUseBody) { id := "session-1" } handedOver :=
    List.mem_of_getElem? (i := 2) rfl
  have hbody : makeRequest { model := sampleClient.base.model } handedOverRequest = .ok _ := rfl
  obtain ⟨items, ht, hfind, hexchanges, hbalanced⟩ := outputs_follow_calls
    (show ({ id := "session-1" } : Session).messages = [] from rfl) handedOver handedOverRequest hr _ _ hbody
  have hlength : (tracedItems handedOverRequest.messages).map List.length = .ok 4 := rfl
  rw [ht] at hlength
  exact ⟨_, items, rfl, hbody, hfind, Except.ok.inj hlength, hexchanges, hbalanced⟩

end OpenAIClient

end NeuralPlus
