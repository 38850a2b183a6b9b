import NeuralPlus.TurnHistory

/-!
# What a response becomes in later requests

Each parser attaches the provider's own material to the message it makes, and
each history encoder finds it there. Whatever a response held, its replay adds
that material and nothing made from the normalized contents and calls.
-/

namespace NeuralPlus

open Fallible

def AppendsToTurn (key : String) (appendHistory : List JsonValue → Message → Except Exc (List JsonValue))
    (message : Message) (role : String) (blocks : List JsonValue) : Prop :=
  ∀ (before : List Message) (entries : List JsonValue), before.foldlM appendHistory [] = .ok entries →
    (∃ kept present, entries = kept ++ [turn key role present] ∧
      appendHistory entries message = .ok (kept ++ [turn key role (present ++ blocks)])) ∨
    (∀ kept present, entries ≠ kept ++ [turn key role present]) ∧
      appendHistory entries message = .ok (entries ++ [turn key role blocks])

theorem appendsToTurn {key : String} {turnOf : Message → Except Exc (Option (String × List JsonValue))}
    {appendHistory : List JsonValue → Message → Except Exc (List JsonValue)} (hkey : key < "role")
    (happend : ∀ turns m, appendHistory turns m = (turnOf m).map (appendContribution key turns))
    {message : Message} {role : String} {blocks : List JsonValue}
    (h : turnOf message = .ok (some (role, blocks))) :
    AppendsToTurn key appendHistory message role blocks := by
  intro before entries hentries
  have htraced := history_eq_traced hkey happend before []
  rw [List.map_nil, hentries] at htraced
  cases ht : before.foldlM (Turns.trace turnOf) [] with
  | error e => rw [ht] at htraced; cases htraced
  | ok traced =>
    rw [ht] at htraced
    have hjson : entries = (Turns.mapBlocks Prod.snd traced).map fun t => turn key t.1 t.2 := by
      rw [Except.ok.inj htraced]
      simp [Turns.mapBlocks, turnJson]
    have hnext : appendHistory entries message =
        .ok ((Turns.push (Turns.mapBlocks Prod.snd traced) role blocks).map fun t => turn key t.1 t.2) := by
      rw [happend, h, hjson, ← appendTurn_eq_push hkey]
      rfl
    obtain ⟨kept, present, hsplit, hpush⟩ | ⟨hpush, hnone⟩ :=
      Turns.push_cases (Turns.mapBlocks Prod.snd traced) role blocks
    · refine .inl ⟨kept.map fun t => turn key t.1 t.2, present, ?_, ?_⟩
      · rw [hjson, hsplit]
        simp
      · rw [hnext, hpush]
        simp
    · refine .inr ⟨?_, ?_⟩
      · intro kept present he
        rw [hjson] at he
        obtain ⟨kept', last, hsplit, _, hlast⟩ := List.map_eq_append_iff.mp he
        obtain ⟨t, rest, rfl, hturn, hrest⟩ := List.map_eq_cons_iff.mp hlast
        rw [List.map_eq_nil_iff.mp hrest] at hsplit
        have hrole : t.1 = role := by
          rw [← stringField_turn key t.1 t.2, hturn, stringField_turn]
        exact hnone kept' t.2 (by rw [hsplit, ← hrole])
      · rw [hnext, hpush, hjson]
        simp

/-! ## OpenAI -/

theorem OpenAIClient.parseResponse_ok {json : JsonText} {response : HttpResponse} {r : AIResponse}
    (h : OpenAIClient.parseResponse json response = .ok r) :
    ∃ body output, json.parse response.body = some body ∧ body.find? "output" = some (.array output) ∧
      r.message.role = .assistant ∧ r.message.providerMetadata = nativeMetadata "openai" "output" (.array output) := by
  unfold OpenAIClient.parseResponse at h
  simp only [bind_eq_ok, Prod.exists] at h
  obtain ⟨body, requestId, hbody, output, houtput, parsed, _, h⟩ := h
  rw [← Except.ok.inj h]
  exact ⟨body, output, (responseBody_ok hbody).1, requireArray_ok houtput, rfl, rfl⟩

theorem OpenAIClient.appendHistory_native {m : Message} {output : List JsonValue} (hrole : m.role = .assistant)
    (hm : m.providerMetadata = nativeMetadata "openai" "output" (.array output)) (input : List JsonValue) :
    OpenAIClient.appendHistory input m = .ok (input ++ output) := by
  unfold OpenAIClient.appendHistory OpenAIClient.nativeOutput
  rw [hrole, nativeMember_of_metadata hm (by decide)]

/-! ## Anthropic -/

theorem AnthropicClient.parseResponse_ok {json : JsonText} {response : HttpResponse} {r : AIResponse}
    (h : AnthropicClient.parseResponse json response = .ok r) :
    ∃ body content parsed malformed, json.parse response.body = some body ∧
      body.find? "content" = some (.array content) ∧
      content.foldlM (AnthropicClient.parseBlock json malformed) {} = .ok parsed ∧
      r.message.role = .assistant ∧ r.message.toolCalls = parsed.calls ∧
      r.message.providerMetadata = nativeMetadata "anthropic" "content" (.array content) := by
  unfold AnthropicClient.parseResponse at h
  simp only [bind_eq_ok, Prod.exists] at h
  obtain ⟨body, requestId, hbody, content, hcontent, parsed, hparsed, usage, _, h⟩ := h
  rw [← Except.ok.inj h]
  exact ⟨body, content, parsed, _, (responseBody_ok hbody).1, requireArray_ok hcontent, hparsed, rfl, rfl, rfl⟩

theorem AnthropicClient.turnOf_native {m : Message} {content : List JsonValue} (hrole : m.role = .assistant)
    (hm : m.providerMetadata = nativeMetadata "anthropic" "content" (.array content)) :
    AnthropicClient.turnOf m = .ok (some ("assistant", content)) := by
  unfold AnthropicClient.turnOf AnthropicClient.nativeContent
  rw [hrole, nativeMember_of_metadata hm (by decide)]

/-! ## Gemini -/

namespace GeminiClient

/-- The content of the first candidate; a blocked prompt and a candidate without content have no members. -/
def candidateContent (body : JsonValue) : JsonValue :=
  match body.find? "candidates" with
  | some (.array (candidate :: _)) => (candidate.find? "content").getD .emptyObject
  | _ => .emptyObject

theorem parseContent_ok {malformed : String → Exc} {candidate content : JsonValue}
    (h : parseContent malformed candidate = .ok content) :
    content = (candidate.find? "content").getD .emptyObject ∧ content.isObject = true := by
  unfold parseContent at h
  split at h
  · next hn =>
    rw [hn, ← Except.ok.inj h]
    exact ⟨rfl, rfl⟩
  · next m hm =>
    rw [hm, ← Except.ok.inj h]
    exact ⟨rfl, rfl⟩
  · cases h

theorem parseCandidate_ok {malformed : String → Exc} {body : JsonValue} {promptBlocked : Bool}
    {candidate : Option JsonValue} (h : parseCandidate malformed body promptBlocked = .ok candidate) :
    (((candidate.getD .emptyObject).find? "content").getD .emptyObject) = candidateContent body := by
  unfold parseCandidate at h
  unfold candidateContent
  split at h
  · next hn =>
    rw [hn]
    split at h
    · rw [← Except.ok.inj h]
      rfl
    · cases h
  · next hn =>
    rw [hn]
    split at h
    · rw [← Except.ok.inj h]
      rfl
    · cases h
  · next m rest hm =>
    rw [hm, ← Except.ok.inj h]
    rfl
  · cases h

theorem parseResponse_ok {json : JsonText} {request : AIRequest} {response : HttpResponse} {r : AIResponse}
    (h : parseResponse json request response = .ok r) :
    ∃ body content, json.parse response.body = some body ∧ candidateContent body = content ∧
      content.isObject = true ∧ r.message.role = .assistant ∧
      r.message.providerMetadata = nativeMetadata "gemini" "content" content := by
  unfold parseResponse at h
  simp only [bind_eq_ok, Prod.exists] at h
  obtain ⟨body, requestId, hbody, candidate, hcandidate, content, hcontent, parts, _, parsed, _, h⟩ := h
  obtain ⟨hc, hobject⟩ := parseContent_ok hcontent
  rw [parseCandidate_ok hcandidate] at hc
  rw [← Except.ok.inj h]
  exact ⟨body, content, (responseBody_ok hbody).1, hc.symm, hobject, rfl, rfl⟩

theorem nativeContent_of_metadata {m : Message} {content : JsonValue} (hobject : content.isObject = true)
    (hm : m.providerMetadata = nativeMetadata "gemini" "content" content) : nativeContent m = some content := by
  unfold nativeContent
  rw [nativeMember_of_metadata hm (by decide)]
  cases content with
  | object members => rfl
  | _ => cases hobject

theorem modelRole_native {content : JsonValue} {role : String} (h : content.find? "role" = some (.string role))
    (hne : role ≠ "") : modelRole (content.stringField "role") = role := by
  rw [JsonValue.stringField_eq h]
  exact if_neg hne

theorem modelRole_absent {content : JsonValue}
    (h : ∀ role, content.find? "role" = some (.string role) → role = "") :
    modelRole (content.stringField "role") = "model" := by
  unfold JsonValue.stringField
  split
  · next role hrole => exact if_pos (h role hrole)
  · rfl

end GeminiClient

/-! ## OpenAI-compatible -/

namespace CompatibleClient

def choiceMessage (body : JsonValue) : JsonValue :=
  match body.find? "choices" with
  | some (.array (choice :: _)) => choice.member "message"
  | _ => .null

/-- The message with its audio, unless that is null, replaced by an object that holds only the id. -/
def withAudioId (native : JsonValue) : JsonValue :=
  match native.find? "audio" with
  | none | some .null => native
  | some audio => native.set "audio" (.ofMembers [("id", audio.member "id")])

theorem parseMessage_ok {malformed : String → Exc} {body choice native : JsonValue}
    (hchoice : parseChoice malformed body = .ok choice) (h : parseMessage malformed choice = .ok native) :
    native = choiceMessage body ∧ native.isObject = true := by
  unfold parseChoice at hchoice
  unfold parseMessage at h
  unfold choiceMessage JsonValue.member
  split at hchoice
  · next c rest hc =>
    rw [hc]
    cases hchoice
    split at h
    · next m hm =>
      dsimp only
      rw [hm, ← Except.ok.inj h]
      exact ⟨rfl, rfl⟩
    · cases h
  · cases hchoice

theorem withAudio_ok {malformed : String → Exc} {malformedAudio : Exc} {native audio : JsonValue}
    {contents contents' : List Content} (h : withAudio malformed malformedAudio native contents = .ok contents')
    (haudio : native.find? "audio" = some audio) :
    audio = .null ∨ ∃ m id, audio = .object m ∧ audio.find? "id" = some (.string id) ∧ id ≠ "" := by
  unfold withAudio at h
  rw [haudio] at h
  cases audio with
  | null => exact .inl rfl
  | object m =>
    simp only [bind_eq_ok, throwIf_eq_ok] at h
    obtain ⟨id, hid, _, hne, _⟩ := h
    exact .inr ⟨m, id, rfl, requireString_ok hid, hne⟩
  | _ => cases h

theorem parseResponse_ok {json : JsonText} {request : AIRequest} {response : HttpResponse} {r : AIResponse}
    (h : parseResponse json request response = .ok r) :
    ∃ body native, json.parse response.body = some body ∧ choiceMessage body = native ∧ native.isObject = true ∧
      replayMessage native = .ok (withAudioId native) ∧ r.message.role = .assistant ∧
      r.message.providerMetadata = nativeMetadata "openai_compatible" "message" native := by
  unfold parseResponse at h
  simp only [bind_eq_ok, Prod.exists] at h
  obtain ⟨body, requestId, hbody, choice, hchoice, native, hnative, contents, _, calls, _, calls', _, contents',
    hcontents, h⟩ := h
  obtain ⟨hm, hobject⟩ := parseMessage_ok hchoice hnative
  rw [← Except.ok.inj h]
  refine ⟨body, native, (responseBody_ok hbody).1, hm.symm, hobject, ?_, rfl, rfl⟩
  unfold replayMessage withAudioId
  cases ha : native.find? "audio" with
  | none => rfl
  | some audio =>
    obtain rfl | ⟨m, id, rfl, hid, hne⟩ := withAudio_ok hcontents ha
    · rfl
    · dsimp only
      rw [JsonValue.stringField_eq hid, if_neg hne, JsonValue.member_eq hid]

theorem parseFunction_arguments {function : JsonValue} {invalid : Exc} {name rawArguments : String}
    (h : parseFunction function invalid = .ok (name, rawArguments)) : function.stringField "arguments" = rawArguments := by
  unfold parseFunction at h
  simp only [bind_eq_ok, pure_eq_ok, Except.ok.injEq, Prod.mk.injEq] at h
  obtain ⟨_, _, _, _, raw, hraw, _, rfl⟩ := h
  exact JsonValue.stringField_eq (requireString_ok hraw)

theorem parseToolCall_ok {json : JsonText} {malformed unsupported : String → Exc} {native : JsonValue} {call : ToolCall}
    (h : parseToolCall json malformed unsupported native = .ok call) :
    native.find? "id" = some (.string call.id) ∧ call.providerMetadata = native ∧
      call.arguments = (parseToolArguments json ((native.member "function").stringField "arguments")).1 := by
  unfold parseToolCall at h
  simp only [bind_eq_ok] at h
  obtain ⟨_, _, h⟩ := h
  split at h
  · next id type function hid _ hfunction =>
    simp only [bind_eq_ok, Prod.exists] at h
    obtain ⟨_, _, _, _, name, rawArguments, hparsed, h⟩ := h
    rw [JsonValue.member_eq hfunction, parseFunction_arguments hparsed, ← Except.ok.inj h]
    exact ⟨hid, rfl, rfl⟩
  · cases h

theorem parseToolCalls_ok {json : JsonText} {malformed unsupported : String → Exc} {native : JsonValue}
    {calls : List ToolCall} (h : parseToolCalls json malformed unsupported native = .ok calls) :
    List.Forall₂ (fun entry call => parseToolCall json malformed unsupported entry = .ok call)
      (arrayMember native "tool_calls") calls := by
  unfold parseToolCalls at h
  split at h
  · next hfind =>
    unfold arrayMember
    rw [JsonValue.member_of_none hfind, ← Except.ok.inj h]
    exact .nil
  · next hfind =>
    unfold arrayMember
    rw [JsonValue.member_eq hfind, ← Except.ok.inj h]
    exact .nil
  · next entries hfind =>
    rw [arrayMember_eq hfind]
    exact mapM_eq_ok h
  · cases h

theorem parseToolCalls_nil_iff {json : JsonText} {malformed unsupported : String → Exc} {native : JsonValue}
    {calls : List ToolCall} (h : parseToolCalls json malformed unsupported native = .ok calls) :
    calls = [] ↔ arrayMember native "tool_calls" = [] := by
  rw [← List.length_eq_zero_iff, ← List.length_eq_zero_iff, (parseToolCalls_ok h).length_eq]

/-- The calls stay, or there were none and the legacy call is the only one. -/
theorem withLegacyCall_cases {json : JsonText} {malformed : String → Exc} {request : AIRequest} {native : JsonValue}
    {calls calls' : List ToolCall} (h : withLegacyCall json malformed request native calls = .ok calls') :
    (calls' = calls ∧ (calls = [] → (native.member "function_call").isObject = false)) ∨
    ∃ m name rawArguments invalid, native.find? "function_call" = some (.object m) ∧ calls = [] ∧
      parseFunction (.object m) invalid = .ok (name, rawArguments) ∧
      calls' = [makeCall json (legacyId request) name rawArguments
        (.ofMembers [("legacy_function_call", .boolean true), ("function_call", .object m)])] := by
  unfold withLegacyCall at h
  split at h
  · next hfind =>
    refine .inl ⟨(Except.ok.inj h).symm, fun _ => ?_⟩
    rw [JsonValue.member_of_none hfind]
    rfl
  · next hfind =>
    refine .inl ⟨(Except.ok.inj h).symm, fun _ => ?_⟩
    rw [JsonValue.member_eq hfind]
    rfl
  · next m hfind =>
    simp only [bind_eq_ok, Prod.exists] at h
    obtain ⟨name, rawArguments, hparsed, h⟩ := h
    by_cases hnil : calls = []
    · rw [if_pos hnil] at h
      exact .inr ⟨m, name, rawArguments, _, hfind, hnil, hparsed, (Except.ok.inj h).symm⟩
    · rw [if_neg hnil] at h
      exact .inl ⟨(Except.ok.inj h).symm, fun hnil' => absurd hnil' hnil⟩
  · cases h

theorem nativeMessage_of_metadata {m : Message} {native : JsonValue} (hobject : native.isObject = true)
    (hm : m.providerMetadata = nativeMetadata "openai_compatible" "message" native) :
    nativeMessage m = some native := by
  unfold nativeMessage
  rw [nativeMember_of_metadata hm (by decide)]
  cases native with
  | object members => rfl
  | _ => cases hobject

end CompatibleClient

/-! ## All adapters -/

/-- What encoding the message after any history appends, in terms of the body it was parsed from. -/
def Adapter.Replays (json : JsonText) (body : JsonValue) (message : Message) : Adapter → Prop
  | openai _ => ∃ output, body.find? "output" = some (.array output) ∧
      ∀ input, OpenAIClient.appendHistory input message = .ok (input ++ output)
  | anthropic _ => ∃ content, body.find? "content" = some (.array content) ∧
      AppendsToTurn "content" AnthropicClient.appendHistory message "assistant" content
  | gemini _ =>
      let content := GeminiClient.candidateContent body
      match content.find? "parts" with
      | some (.array parts) =>
        let appendsUnder role := AppendsToTurn "parts" (GeminiClient.appendHistory json) message role parts
        (∀ role, content.find? "role" = some (.string role) → role ≠ "" → appendsUnder role) ∧
        ((∀ role, content.find? "role" = some (.string role) → role = "") → appendsUnder "model")
      | _ => ∀ contents, GeminiClient.appendHistory json contents message = .ok contents
  | compatible _ => ∀ messages, CompatibleClient.appendHistory messages message =
      .ok (messages ++ [CompatibleClient.withAudioId (CompatibleClient.choiceMessage body)])

/-- **A response is replayed as the provider sent it**, after any history and without an error. -/
theorem Adapter.replays_of_parseResponse {json : JsonText} {request : AIRequest} {adapter : Adapter}
    {response : HttpResponse} {r : AIResponse} (h : adapter.parseResponse json request response = .ok r) :
    ∃ body, json.parse response.body = some body ∧ adapter.Replays json body r.message := by
  cases adapter with
  | openai impl =>
    obtain ⟨body, output, hbody, houtput, hrole, hm⟩ := OpenAIClient.parseResponse_ok h
    exact ⟨body, hbody, output, houtput, OpenAIClient.appendHistory_native hrole hm⟩
  | anthropic impl =>
    obtain ⟨body, content, _, _, hbody, hcontent, _, hrole, _, hm⟩ := AnthropicClient.parseResponse_ok h
    refine ⟨body, hbody, content, hcontent, ?_⟩
    exact appendsToTurn (by decide) AnthropicClient.appendHistory_eq (AnthropicClient.turnOf_native hrole hm)
  | gemini impl =>
    obtain ⟨body, content, hbody, hcontent, hobject, hrole, hm⟩ := GeminiClient.parseResponse_ok h
    have hnative := GeminiClient.nativeContent_of_metadata hobject hm
    refine ⟨body, hbody, ?_⟩
    unfold Adapter.Replays
    rw [hcontent]
    dsimp only
    split
    · next parts hparts =>
      have hunder : AppendsToTurn "parts" (GeminiClient.appendHistory json) r.message
          (GeminiClient.modelRole (content.stringField "role")) parts := by
        apply appendsToTurn (by decide) (GeminiClient.appendHistory_eq json)
        unfold GeminiClient.turnOf
        rw [hrole, hnative]
        dsimp only
        rw [hparts]
      constructor
      · intro role hnamed hne
        rwa [GeminiClient.modelRole_native hnamed hne] at hunder
      · intro hnone
        rwa [GeminiClient.modelRole_absent hnone] at hunder
    · next hno =>
      intro contents
      unfold GeminiClient.appendHistory
      rw [hrole, hnative]
      dsimp only
      split
      · next parts hparts => exact absurd hparts (hno parts)
      · rfl
  | compatible impl =>
    obtain ⟨body, native, hbody, hchoice, hobject, hreplay, hrole, hm⟩ := CompatibleClient.parseResponse_ok h
    refine ⟨body, hbody, ?_⟩
    intro messages
    unfold CompatibleClient.appendHistory
    rw [hrole, CompatibleClient.nativeMessage_of_metadata hobject hm]
    dsimp only
    rw [hreplay, hchoice]
    rfl

def fixedText (value : JsonValue) : JsonText := { parse := fun _ => some value, dump := fun _ => "" }

def sampleRequest : AIRequest :=
  { sessionId := "session-1", runId := "run-1", systemMessage := none, messages := [], tools := [], options := {} }

def sampleAdapter : Adapter :=
  .anthropic { config := { model := { provider := .anthropic, id := "model" } }, endpoint := "", apiKey := "key",
               valid := rfl }

def thinkingBlock : JsonValue := .ofMembers [("type", .string "thinking"), ("signature", .string "abc")]

def thinkingBody : JsonValue :=
  .ofMembers [("content", .array [thinkingBlock]), ("stop_reason", .string "end_turn")]

theorem Adapter.replays_thinking : ∃ r,
    sampleAdapter.parseResponse (fixedText thinkingBody) sampleRequest { status := 200, body := "" } = .ok r ∧
    ∃ body, (fixedText thinkingBody).parse "" = some body ∧
      sampleAdapter.Replays (fixedText thinkingBody) body r.message := by
  have h : sampleAdapter.parseResponse (fixedText thinkingBody) sampleRequest { status := 200, body := "" } = .ok _ := rfl
  exact ⟨_, h, Adapter.replays_of_parseResponse h⟩

def candidateBody (role : String) (parts : List JsonValue) : JsonValue :=
  .ofMembers [("candidates", .array [.ofMembers
    [("content", .ofMembers [("role", .string role), ("parts", .array parts)]), ("finishReason", .string "STOP")]])]

def helloPart : JsonValue := .ofMembers [("text", .string "hello")]

/-- Gemini replays a candidate that had no parts as a turn without parts, and an empty role as `model`. -/
theorem GeminiClient.replays_empty :
    (∃ r, GeminiClient.parseResponse (fixedText (candidateBody "model" [])) sampleRequest
        { status := 200, body := "" } = .ok r ∧
      GeminiClient.appendHistory (fixedText .null) [] r.message = .ok [turn "parts" "model" []]) ∧
    ∃ r, GeminiClient.parseResponse (fixedText (candidateBody "" [helloPart])) sampleRequest
        { status := 200, body := "" } = .ok r ∧
      GeminiClient.appendHistory (fixedText .null) [] r.message = .ok [turn "parts" "model" [helloPart]] :=
  ⟨⟨_, rfl, rfl⟩, ⟨_, rfl, rfl⟩⟩

end NeuralPlus
