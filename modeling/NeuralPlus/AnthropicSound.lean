import NeuralPlus.ParsedItems
import NeuralPlus.Transcript

/-!
# Tool results on the Anthropic wire

Messages of one role share a turn, so an assistant turn can hold several
paused responses and a user turn several tool messages and the inputs of
failed runs. The results of a turn's tool uses still open the next turn.
-/

namespace NeuralPlus

open Fallible Emission

namespace AnthropicClient

/-! ## Turns whose results follow their uses -/

def uses (blocks : List (Message × JsonValue)) : List (Message × JsonValue) := blocks.filter fun b => isToolUse b.2

/-- The result was made from a tool message and carries the id of the use. -/
def Resolves (use result : Message × JsonValue) : Prop :=
  result.1.role = .tool ∧ result.2.find? "type" = some (.string "tool_result") ∧
    ∃ id, use.2.find? "id" = some (.string id) ∧ result.2.find? "tool_use_id" = some (.string id)

def pending (turns : List (String × List (Message × JsonValue))) : List (Message × JsonValue) :=
  match turns.getLast? with
  | none => []
  | some (role, blocks) => if role = "assistant" then uses blocks else []

def StartsWithResults (before : List (String × List (Message × JsonValue)))
    (turn : String × List (Message × JsonValue)) : Prop :=
  ∃ results rest, turn.2 = results ++ rest ∧ List.Forall₂ Resolves (pending before) results ∧
    (∀ b ∈ rest, b.1.role ≠ .tool) ∧ (pending before ≠ [] → turn.1 = "user")

structure Resolved (turns : List (String × List (Message × JsonValue))) : Prop where
  started : History.Holds StartsWithResults turns
  nothingPending : pending turns = []

/-- Each assistant turn with tool uses is followed by a user turn that starts with their results,
and blocks made from tool messages stand nowhere else. -/
structure Paired (turns : List (String × List (Message × JsonValue))) : Prop where
  followed : ∀ before blocks after, turns = before ++ ("assistant", blocks) :: after → uses blocks ≠ [] →
    ∃ results rest after', after = ("user", results ++ rest) :: after' ∧ List.Forall₂ Resolves (uses blocks) results ∧
      ∀ b ∈ rest, b.1.role ≠ .tool
  nowhereElse : ∀ before role blocks after, turns = before ++ (role, blocks) :: after → pending before = [] →
    ∀ b ∈ blocks, b.1.role ≠ .tool

theorem pending_concat (turns : List (String × List (Message × JsonValue))) (role : String)
    (blocks : List (Message × JsonValue)) :
    pending (turns ++ [(role, blocks)]) = if role = "assistant" then uses blocks else [] := by
  unfold pending
  rw [List.getLast?_concat]

theorem Resolved.paired {turns : List (String × List (Message × JsonValue))} (h : Resolved turns) : Paired turns := by
  refine ⟨?_, ?_⟩
  · intro before blocks after heq huses
    have hpending : pending (before ++ [("assistant", blocks)]) = uses blocks := by
      rw [pending_concat, if_pos rfl]
    cases after with
    | nil =>
      have hnone := h.nothingPending
      rw [heq, hpending] at hnone
      exact absurd hnone huses
    | cons turn after =>
      obtain ⟨results, rest, hsplit, hres, hrest, huser⟩ :=
        h.started (before ++ [("assistant", blocks)]) turn after (by rw [heq]; simp)
      rw [hpending] at hres huser
      refine ⟨results, rest, after, ?_, hres, hrest⟩
      rw [← hsplit, ← huser huses]
  · intro before role blocks after heq hnone
    obtain ⟨results, rest, hsplit, hres, hrest, _⟩ := h.started before (role, blocks) after heq
    rw [hnone] at hres
    cases hres
    have hblocks : blocks = rest := hsplit
    rw [hblocks]
    exact hrest

theorem Resolved.push {turns : List (String × List (Message × JsonValue))} (h : Resolved turns) (role : String)
    {blocks : List (Message × JsonValue)} (hblocks : ∀ b ∈ blocks, b.1.role ≠ .tool) :
    History.Holds StartsWithResults (Turns.push turns role blocks) ∧
      pending (Turns.push turns role blocks) = if role = "assistant" then uses blocks else [] := by
  obtain ⟨before, present, rfl, hpush⟩ | ⟨hpush, _⟩ := Turns.push_cases turns role blocks
  · rw [hpush]
    obtain ⟨results, rest, hsplit, hres, hrest, huser⟩ := h.started.last
    refine ⟨h.started.left.concat ⟨results, rest ++ blocks, ?_, hres, ?_, huser⟩, ?_⟩
    · show present ++ blocks = results ++ (rest ++ blocks)
      rw [show present = results ++ rest from hsplit, List.append_assoc]
    · intro b hb
      rcases List.mem_append.mp hb with hb | hb
      · exact hrest b hb
      · exact hblocks b hb
    · have hnone := h.nothingPending
      rw [pending_concat] at hnone ⊢
      by_cases hrole : role = "assistant"
      · simp only [if_pos hrole] at hnone ⊢
        unfold uses at hnone ⊢
        rw [List.filter_append, hnone, List.nil_append]
      · rw [if_neg hrole, if_neg hrole]
  · rw [hpush]
    refine ⟨h.started.concat ⟨[], blocks, rfl, ?_, hblocks, ?_⟩, pending_concat ..⟩
    · rw [h.nothingPending]
      exact .nil
    · intro hne
      exact absurd h.nothingPending hne

theorem Resolved.block {turns : List (String × List (Message × JsonValue))} (h : Resolved turns)
    {blocks results : List (Message × JsonValue)} (hblocks : ∀ b ∈ blocks, b.1.role ≠ .tool)
    (hres : List.Forall₂ Resolves (uses blocks) results) :
    Resolved (if results = [] then Turns.push turns "assistant" blocks
      else Turns.push (Turns.push turns "assistant" blocks) "user" results) := by
  obtain ⟨hstarted, hpending⟩ := h.push "assistant" hblocks
  rw [if_pos rfl] at hpending
  by_cases hr : results = []
  · rw [if_pos hr]
    refine ⟨hstarted, ?_⟩
    rw [hpending]
    rw [hr] at hres
    cases hu : uses blocks with
    | nil => rfl
    | cons use rest => rw [hu] at hres; cases hres
  · rw [if_neg hr]
    -- the pushed turn is the assistant's, so the results open a turn of their own
    have hopen : Turns.push (Turns.push turns "assistant" blocks) "user" results =
        Turns.push turns "assistant" blocks ++ [("user", results)] := by
      obtain ⟨before, present, _, hpush⟩ | ⟨hpush, _⟩ := Turns.push_cases turns "assistant" blocks
      · rw [hpush, Turns.push_concat_ne (by decide)]
        simp
      · rw [hpush, Turns.push_concat_ne (by decide)]
        simp
    rw [hopen]
    refine ⟨hstarted.concat ⟨results, [], (List.append_nil _).symm, ?_, ?_, fun _ => rfl⟩, ?_⟩
    · rw [hpending]
      exact hres
    · intro b hb
      exact absurd hb List.not_mem_nil
    · rw [pending_concat, if_neg (by decide)]

/-! ## The calls of a response are its tool uses -/

def CallsOf (content : List JsonValue) (calls : List ToolCall) : Prop :=
  List.Forall₂ (fun block call => block.find? "id" = some (.string (ToolCall.id call))) (content.filter isToolUse) calls

theorem callsOf_emitted {json : JsonText} {n : Nat} {content : List JsonValue} {cs : List Content} {calls : List ToolCall}
    (h : Emitted (BlockEmits json) n content cs calls) : CallsOf content calls := by
  unfold CallsOf
  induction h with
  | nil => exact .nil
  | @cons n block content cs cs' ks ks' hblock _ ih =>
    obtain ⟨hchecked, hemits⟩ := hblock
    unfold OneEach at hemits
    by_cases huse : isToolUse block = true
    · rw [if_pos huse] at hemits
      rw [hemits.2, List.filter_cons_of_pos huse]
      exact .cons (JsonValue.find?_of_stringField (hchecked huse).id) ih
    · rw [if_neg huse] at hemits
      rw [hemits.2, List.filter_cons_of_neg huse]
      exact ih

/-! ## The turns of a session -/

def resultBlocks (m : Message) : List JsonValue := [toolResultBlock m ((blocks m).toOption.getD [])]

theorem turnOf_tool {m : Message} (hrole : m.role = .tool) (h : Returns (turnOf m)) :
    turnOf m = .ok (some ("user", resultBlocks m)) := by
  unfold turnOf resultBlocks at *
  rw [hrole] at h ⊢
  cases hb : blocks m with
  | error e => rw [hb] at h; exact absurd h (not_returns_error e)
  | ok content => rfl

theorem find?_toolResultBlock {key : String} (hkey : "is_error" ≠ key) (m : Message) (content : List JsonValue) :
    (toolResultBlock m content).find? key = OrdMap.find? key [("type", .string "tool_result"),
      ("tool_use_id", .string m.toolCallId), ("content", .array content)] := by
  unfold toolResultBlock
  rw [find?_setIfSome_ne hkey, JsonValue.find?_ofMembers]

theorem resolves_of_answers {m : Message} {content : List JsonValue} {calls : List ToolCall} {answers : List Message}
    (hcalls : CallsOf content calls) (hanswers : List.Forall₂ AIClient.Answers calls answers) :
    List.Forall₂ Resolves (uses (content.map (Prod.mk m)))
      (answers.flatMap fun answer => (resultBlocks answer).map (Prod.mk answer)) := by
  have huses : uses (content.map (Prod.mk m)) = (content.filter isToolUse).map (Prod.mk m) := by
    unfold uses
    rw [List.filter_map]
    rfl
  have hresults : (answers.flatMap fun answer => (resultBlocks answer).map (Prod.mk answer)) =
      answers.map fun answer => (answer, toolResultBlock answer ((blocks answer).toOption.getD [])) := by
    rw [List.map_eq_flatMap]
    rfl
  unfold CallsOf at hcalls
  rw [huses, hresults, List.forall₂_map_left_iff, List.forall₂_map_right_iff]
  generalize content.filter isToolUse = useBlocks at hcalls
  clear huses hresults
  induction hcalls generalizing answers with
  | nil =>
    cases hanswers
    exact .nil
  | cons hid _ ih =>
    cases hanswers with
    | cons hanswer hrest =>
      obtain ⟨hrole, hcallId, _⟩ := hanswer
      refine .cons ⟨hrole, ?_, _, hid, ?_⟩ (ih hrest)
      · rw [find?_toolResultBlock (by decide)]
        rfl
      · rw [find?_toolResultBlock (by decide), ← hcallId]
        rfl

def TurnsResolved (messages : List Message) : Prop := ∀ turns, tracedTurns messages = .ok turns → Resolved turns

theorem turnsResolved_nil : TurnsResolved [] := by
  intro turns h
  cases h
  exact ⟨.nil, rfl⟩

theorem role_of_mem_map {m : Message} (hrole : m.role ≠ .tool) {blocks : List JsonValue} :
    ∀ b ∈ blocks.map (Prod.mk m), b.1.role ≠ .tool := by
  intro b hb
  obtain ⟨_, _, rfl⟩ := List.mem_map.mp hb
  exact hrole

theorem TurnsResolved.input {messages : List Message} {input : Message} (h : TurnsResolved messages)
    (hrole : input.role = .user) : TurnsResolved (messages ++ [input]) := by
  intro turns' hturns'
  obtain ⟨turns, hturns, htrace⟩ := Turns.traceAll_concat.mp hturns'
  obtain ⟨ht, _⟩ | ⟨role, bs, ht, rfl⟩ := Turns.trace_ok htrace
  · unfold turnOf at ht
    rw [hrole] at ht
    cases hb : blocks input <;> rw [hb] at ht <;> cases ht
  · have huser : role = "user" := by
      unfold turnOf at ht
      rw [hrole] at ht
      cases hb : blocks input <;> rw [hb] at ht <;> cases ht
      rfl
    subst huser
    obtain ⟨hstarted, hpending⟩ := (h turns hturns).push "user" (role_of_mem_map (by rw [hrole]; decide))
    exact ⟨hstarted, by rw [hpending, if_neg (by decide)]⟩

theorem TurnsResolved.block_of {messages : List Message} {b : AIClient.Block} (h : TurnsResolved messages)
    (hwf : b.WellFormed) {content : List JsonValue}
    (hturnOf : turnOf b.response.message = .ok (some ("assistant", content)))
    (hcalls : CallsOf content b.response.message.toolCalls) : TurnsResolved (messages ++ b.messages) := by
  have hres : List.Forall₂ Resolves (uses (content.map (Prod.mk b.response.message)))
      (b.answers.flatMap fun answer => (resultBlocks answer).map (Prod.mk answer)) := resolves_of_answers hcalls hwf.2
  intro turns' hturns'
  unfold tracedTurns Turns.traceAll at hturns'
  rw [List.foldlM_append, bind_eq_ok] at hturns'
  obtain ⟨turns, hturns, hrest⟩ := hturns'
  rw [AIClient.Block.messages, List.foldlM_cons, Turns.trace_some hturnOf, ok_bind] at hrest
  have hkept := (h turns hturns).block (role_of_mem_map (by rw [hwf.1]; decide)) hres
  by_cases hanswers : b.answers = []
  · rw [hanswers] at hrest hkept
    cases hrest
    exact hkept
  · have hreturns : ∀ m ∈ b.answers, Returns (turnOf m) :=
      (foldlM_returns Turns.trace_returns b.answers _).mp ⟨_, hrest⟩
    have hturn : ∀ m ∈ b.answers, turnOf m = .ok (some ("user", resultBlocks m)) := by
      intro m hm
      exact turnOf_tool (AIClient.role_of_answers hwf.2 m hm) (hreturns m hm)
    rw [Turns.foldlM_trace_same hturn hanswers] at hrest
    cases hrest
    rw [if_neg] at hkept
    · exact hkept
    · intro hnil
      rw [List.flatMap_eq_nil_iff] at hnil
      cases ha : b.answers with
      | nil => exact hanswers ha
      | cons m answers => exact absurd (hnil m (by rw [ha]; exact List.mem_cons_self ..)) (by simp [resultBlocks])

theorem TurnsResolved.block {json : JsonText} {response : HttpResponse} {messages : List Message}
    {b : AIClient.Block} (h : TurnsResolved messages) (hwf : b.WellFormed)
    (hparse : parseResponse json response = .ok b.response) : TurnsResolved (messages ++ b.messages) := by
  obtain ⟨_, content, parsed, _, _, _, hfold, hrole, hcalls, hmetadata⟩ := parseResponse_ok hparse
  apply h.block_of hwf (turnOf_native hrole hmetadata)
  rw [hcalls]
  exact callsOf_emitted (foldlM_parsed (fun _ _ _ => parseBlock_emits) hfold)

theorem keeps_turnsResolved {json : JsonText} {client : BuiltInClient} {impl : Impl}
    (hclient : client.adapter = .anthropic impl) (call : Call) :
    client.base.Keeps (client.env json call) TurnsResolved where
  input := fun hm hv => hm.input (AIClient.validateInput_ok hv).1
  block := by
    intro _ _ _ _ hm hwf hsent
    obtain ⟨response, hparse⟩ := Adapter.generateOnce_ok hsent
    rw [hclient] at hparse
    exact hm.block hwf hparse

theorem makeRequest_messages {config : AnthropicConfig} {request : AIRequest} {body : JsonValue}
    (h : makeRequest config request = .ok body) :
    ∃ messages, request.messages.foldlM appendHistory [] = .ok messages ∧
      body.find? "messages" = some (.array messages) := by
  unfold makeRequest at h
  simp only [bind_eq_ok, pure_eq_ok, Except.ok.injEq] at h
  obtain ⟨options, hoptions, messages, hmessages, tools, htools, rfl⟩ := h
  refine ⟨messages, hmessages, ?_⟩
  have haccepts := JsonValue.acceptsKey_of_isObject (mergedProviderOptions_ok hoptions)
  rw [find?_setIfSome_ne (by decide), withTools_ok htools (by decide)]
  split
  · rw [JsonValue.find?_set (by simpa using haccepts), if_pos rfl]
  · rw [JsonValue.find?_set_ne (by decide), JsonValue.find?_set (by simpa using haccepts), if_pos rfl]

/-- **In every request of a session's generations the results of tool uses follow the uses**, one for each in
order, whatever was merged into the turns; nothing else on the wire comes from a tool message. -/
theorem results_follow_uses {json : JsonText} {client : BuiltInClient} {impl : Impl}
    (hclient : client.adapter = .anthropic impl) {session : Session} (hempty : session.messages = [])
    (calls : List Call) (call : Call) {r : Round}
    (hr : r ∈ (client.generate json (client.generateAll json session calls) call).log.rounds) {body : JsonValue}
    (hbody : makeRequest impl.config r.request = .ok body) :
    ∃ turns, tracedTurns r.request.messages = .ok turns ∧
      body.find? "messages" = some (.array (turns.map (turnJson "content"))) ∧ Paired turns := by
  have hkeeps : ∀ call, client.base.Keeps (client.env json call) TurnsResolved := keeps_turnsResolved hclient
  have hresolved := BuiltInClient.keeps_round hkeeps turnsResolved_nil hempty calls call hr
  obtain ⟨messages, hmessages, hfind⟩ := makeRequest_messages hbody
  rw [history_eq] at hmessages
  cases ht : tracedTurns r.request.messages with
  | error e => rw [ht] at hmessages; cases hmessages
  | ok turns =>
    rw [ht] at hmessages
    cases hmessages
    exact ⟨turns, rfl, hfind, (hresolved turns ht).paired⟩

def sampleClient : BuiltInClient :=
  { base := { AIClient.plainClient with model := { provider := .anthropic, id := "model" } }
    adapter := sampleAdapter
    model_eq := rfl }

def sampleCall : Call :=
  { runId := "run-1"
    send := fun n _ => if n = 0 then .ok { status := 200, body := "" } else .error (.transport "connection reset")
    invoke := fun _ _ _ _ _ => .error .unknown
    schedule := fun _ => []
    input := .userText "hello"
    options := {} }

def toolUseBody : JsonValue :=
  .ofMembers [("content", .array [.ofMembers [("type", .string "tool_use"), ("id", .string "t1"),
    ("name", .string "weather"), ("input", .emptyObject)]]), ("stop_reason", .string "tool_use")]

def sampleResult : GenerateResult := sampleClient.generate (fixedText toolUseBody) { id := "session-1" } sampleCall

def sampleRound : Round := (sampleResult.log.rounds[1]?).getD { request := sampleRequest }

theorem results_follow_uses_sample : ∃ body turns,
    sampleRound ∈ sampleResult.log.rounds ∧ sampleRound.request.messages.length = 3 ∧
    makeRequest { model := sampleClient.base.model } sampleRound.request = .ok body ∧
    body.find? "messages" = some (.array (turns.map (turnJson "content"))) ∧ Paired turns := by
  have hr : sampleRound ∈ (sampleClient.generate (fixedText toolUseBody)
      (sampleClient.generateAll (fixedText toolUseBody) { id := "session-1" } []) sampleCall).log.rounds :=
    List.mem_of_getElem? (i := 1) rfl
  have hbody : makeRequest { model := sampleClient.base.model } sampleRound.request = .ok _ := rfl
  obtain ⟨turns, _, hfind, hpaired⟩ := results_follow_uses (show sampleClient.adapter = .anthropic _ from rfl)
    (show ({ id := "session-1" } : Session).messages = [] from rfl) [] sampleCall hr hbody
  exact ⟨_, turns, hr, rfl, hbody, hfind, hpaired⟩

end AnthropicClient

end NeuralPlus
