import NeuralPlus.AnthropicSound
import NeuralPlus.CompatibleSound
import NeuralPlus.Handoff
import NeuralPlus.Origins

/-!
# Requests only grow

A later request of a session holds the history of the earlier ones and more
behind it: for OpenAI and Chat Completions a longer array, for Anthropic and
Gemini turns of which only the last one may have got more blocks. Under the
same options nothing else of the body changes.
-/

namespace NeuralPlus

open Fallible

/-! ## Bodies that differ in one field -/

/-- Two objects, or null, that agree on every other key. -/
structure SameBut (key : String) (body body' : JsonValue) : Prop where
  left : body.acceptsKey = true
  right : body'.acceptsKey = true
  same : ∀ key', key' ≠ key → body.find? key' = body'.find? key'

namespace SameBut

variable {key : String} {body body' : JsonValue}

theorem of_set (h : body.acceptsKey = true) (key : String) (v v' : JsonValue) :
    SameBut key (body.set key v) (body.set key v') := by
  refine ⟨by rwa [JsonValue.acceptsKey_set], by rwa [JsonValue.acceptsKey_set], ?_⟩
  intro key' hkey
  rw [JsonValue.find?_set_ne (Ne.symm hkey), JsonValue.find?_set_ne (Ne.symm hkey)]

theorem set (h : SameBut key body body') (k : String) (v : JsonValue) : SameBut key (body.set k v) (body'.set k v) := by
  refine ⟨by rw [JsonValue.acceptsKey_set]; exact h.left, by rw [JsonValue.acceptsKey_set]; exact h.right, ?_⟩
  intro key' hkey
  rw [JsonValue.find?_set h.left, JsonValue.find?_set h.right, h.same key' hkey]

theorem setIfSome (h : SameBut key body body') (k : String) (v : Option JsonValue) :
    SameBut key (setIfSome body k v) (setIfSome body' k v) := by
  cases v with
  | none => exact h
  | some v => exact h.set k v

theorem withTools {provider : String} {declarations : List JsonValue} {out out' : JsonValue}
    (h : SameBut key body body') (hkey : "tools" ≠ key) (hl : withTools provider body declarations = .ok out)
    (hr : withTools provider body' declarations = .ok out') : SameBut key out out' := by
  unfold NeuralPlus.withTools at hl hr
  have hconfigured : configuredTools provider body = configuredTools provider body' := by
    unfold configuredTools
    rw [h.same "tools" hkey]
  rw [hconfigured] at hl
  simp only [bind_eq_ok, pure_eq_ok, Except.ok.injEq] at hl hr
  obtain ⟨configured, hc, rfl⟩ := hl
  obtain ⟨configured', hc', rfl⟩ := hr
  obtain rfl : configured = configured' := Except.ok.inj (hc.symm.trans hc')
  by_cases hnil : declarations = []
  · rw [if_pos hnil, if_pos hnil]
    exact h
  · rw [if_neg hnil, if_neg hnil]
    exact h.set _ _

theorem withGenerationConfig {options : GenerateOptions} {out out' : JsonValue} (h : SameBut key body body')
    (hkey : "generationConfig" ≠ key) (hl : GeminiClient.withGenerationConfig body options = .ok out)
    (hr : GeminiClient.withGenerationConfig body' options = .ok out') : SameBut key out out' := by
  unfold GeminiClient.withGenerationConfig at hl hr
  rw [h.same "generationConfig" hkey] at hl
  dsimp only at hl hr
  by_cases hnone : options.maxOutputTokens = none ∧ options.temperature = none
  · rw [if_pos hnone] at hl hr
    rw [← Except.ok.inj hl, ← Except.ok.inj hr]
    exact h
  · rw [if_neg hnone] at hl hr
    by_cases hobject : ((body'.find? "generationConfig").getD .emptyObject).isObject = false
    · rw [if_pos hobject] at hl
      cases hl
    · rw [if_neg hobject] at hl hr
      rw [← Except.ok.inj hl, ← Except.ok.inj hr]
      exact h.set _ _

end SameBut

/-! ## The history field -/

theorem OpenAIClient.makeRequest_input {config : OpenAIConfig} {request : AIRequest} {body : JsonValue}
    (h : makeRequest config request = .ok body) :
    ∃ input, request.messages.foldlM appendHistory [] = .ok input ∧ body.find? "input" = some (.array input) := by
  unfold makeRequest at h
  simp only [bind_eq_ok, pure_eq_ok, Except.ok.injEq] at h
  obtain ⟨options, hoptions, input, hinput, out, htools, rfl⟩ := h
  have haccepts := JsonValue.acceptsKey_of_isObject (mergedProviderOptions_ok hoptions)
  refine ⟨input, hinput, ?_⟩
  rw [find?_setIfSome_ne (by decide), find?_setIfSome_ne (by decide), withTools_ok htools (by decide),
    find?_setIfSome_ne (by decide), JsonValue.find?_set (by simpa using haccepts), if_pos rfl]

theorem GeminiClient.makeRequest_contents {json : JsonText} {config : GeminiConfig} {request : AIRequest}
    {body : JsonValue} (h : makeRequest json config request = .ok body) :
    ∃ contents, request.messages.foldlM (appendHistory json) [] = .ok contents ∧
      body.find? "contents" = some (.array contents) := by
  unfold makeRequest at h
  simp only [bind_eq_ok] at h
  obtain ⟨options, hoptions, contents, hcontents, out, htools, h⟩ := h
  have haccepts := JsonValue.acceptsKey_of_isObject (mergedProviderOptions_ok hoptions)
  refine ⟨contents, hcontents, ?_⟩
  have hconfig : body.find? "contents" = out.find? "contents" := by
    unfold withGenerationConfig at h
    dsimp only at h
    split at h
    · rw [Except.ok.inj h]
    · split at h
      · cases h
      · rw [← Except.ok.inj h, JsonValue.find?_set_ne (by decide)]
  rw [hconfig, withTools_ok htools (by decide)]
  split
  · rw [JsonValue.find?_set (by simpa using haccepts), if_pos rfl]
  · rw [JsonValue.find?_set_ne (by decide), JsonValue.find?_set (by simpa using haccepts), if_pos rfl]

namespace Adapter

def historyKey : Adapter → String
  | openai _ => "input"
  | anthropic _ => "messages"
  | gemini _ => "contents"
  | compatible _ => "messages"

/-- Chat Completions puts the system instruction before the history. -/
def firstEntries (request : AIRequest) : Adapter → List JsonValue
  | openai _ | anthropic _ | gemini _ => []
  | compatible _ => CompatibleClient.systemEntry (systemInstruction request)

variable {json : JsonText} {adapter : Adapter} {request : AIRequest} {body : JsonValue}

theorem find?_historyKey (h : adapter.makeRequest json request = .ok body) :
    ∃ entries, request.messages.foldlM (adapter.appendHistory json) (adapter.firstEntries request) = .ok entries ∧
      body.find? adapter.historyKey = some (.array entries) := by
  cases adapter with
  | openai impl => exact OpenAIClient.makeRequest_input h
  | anthropic impl => exact AnthropicClient.makeRequest_messages h
  | gemini impl => exact GeminiClient.makeRequest_contents h
  | compatible impl => exact CompatibleClient.makeRequest_messages h

/-- Two requests of one system instruction, set of tools and options differ in the history only. -/
theorem makeRequest_sameBut {request' : AIRequest} {body' : JsonValue}
    (hmessage : request.systemMessage = request'.systemMessage)
    (hsystem : systemInstruction request = systemInstruction request') (htools : request.tools = request'.tools)
    (hoptions : request.options = request'.options) (h : adapter.makeRequest json request = .ok body)
    (h' : adapter.makeRequest json request' = .ok body') : SameBut adapter.historyKey body body' := by
  cases adapter with
  | openai impl =>
    simp only [makeRequest, OpenAIClient.makeRequest, bind_eq_ok, pure_eq_ok, Except.ok.injEq, hmessage, htools,
      hoptions] at h h'
    obtain ⟨options, ho, input, _, out, hout, rfl⟩ := h
    obtain ⟨options', ho', input', _, out', hout', rfl⟩ := h'
    obtain rfl : options = options' := Except.ok.inj (ho.symm.trans ho')
    have haccepts := JsonValue.acceptsKey_of_isObject (mergedProviderOptions_ok ho)
    show SameBut "input" _ _
    refine SameBut.setIfSome (SameBut.setIfSome (SameBut.withTools ?_ (by decide) hout hout') _ _) _ _
    apply SameBut.setIfSome
    apply SameBut.of_set
    simpa using haccepts
  | anthropic impl =>
    simp only [makeRequest, AnthropicClient.makeRequest, bind_eq_ok, pure_eq_ok, Except.ok.injEq, hsystem, htools,
      hoptions] at h h'
    obtain ⟨options, ho, messages, _, out, hout, rfl⟩ := h
    obtain ⟨options', ho', messages', _, out', hout', rfl⟩ := h'
    obtain rfl : options = options' := Except.ok.inj (ho.symm.trans ho')
    have haccepts := JsonValue.acceptsKey_of_isObject (mergedProviderOptions_ok ho)
    show SameBut "messages" _ _
    refine SameBut.setIfSome (SameBut.withTools ?_ (by decide) hout hout') _ _
    by_cases hempty : systemInstruction request' = ""
    · rw [if_pos hempty, if_pos hempty]
      apply SameBut.of_set
      simpa using haccepts
    · rw [if_neg hempty, if_neg hempty]
      apply SameBut.set
      apply SameBut.of_set
      simpa using haccepts
  | gemini impl =>
    simp only [makeRequest, GeminiClient.makeRequest, bind_eq_ok, hsystem, htools, hoptions] at h h'
    obtain ⟨options, ho, contents, _, out, hout, h⟩ := h
    obtain ⟨options', ho', contents', _, out', hout', h'⟩ := h'
    obtain rfl : options = options' := Except.ok.inj (ho.symm.trans ho')
    have haccepts := JsonValue.acceptsKey_of_isObject (mergedProviderOptions_ok ho)
    show SameBut "contents" _ _
    refine SameBut.withGenerationConfig (SameBut.withTools ?_ (by decide) hout hout') (by decide) h h'
    by_cases hempty : systemInstruction request' = ""
    · rw [if_pos hempty, if_pos hempty]
      exact .of_set haccepts _ _ _
    · rw [if_neg hempty, if_neg hempty]
      apply SameBut.set
      exact .of_set haccepts _ _ _
  | compatible impl =>
    simp only [makeRequest, CompatibleClient.makeRequest, bind_eq_ok, pure_eq_ok, Except.ok.injEq, hsystem, htools,
      hoptions] at h h'
    obtain ⟨options, ho, messages, _, out, hout, rfl⟩ := h
    obtain ⟨options', ho', messages', _, out', hout', rfl⟩ := h'
    obtain rfl : options = options' := Except.ok.inj (ho.symm.trans ho')
    have haccepts := JsonValue.acceptsKey_of_isObject (mergedProviderOptions_ok ho)
    show SameBut "messages" _ _
    refine SameBut.setIfSome (SameBut.setIfSome (SameBut.withTools ?_ (by decide) hout hout') _ _) _ _
    apply SameBut.of_set
    simpa using haccepts

end Adapter

/-! ## Histories that grow -/

def TurnsGrow (key : String) (entries entries' : List JsonValue) : Prop :=
  ∃ turns turns' : List (String × List JsonValue), entries = turns.map (fun t => turn key t.1 t.2) ∧
    entries' = turns'.map (fun t => turn key t.1 t.2) ∧ Turns.Extends turns turns'

theorem turnsGrow {key : String} {turnOf : Message → Except Exc (Option (String × List JsonValue))}
    {appendHistory : List JsonValue → Message → Except Exc (List JsonValue)} (hkey : key < "role")
    (happend : ∀ turns m, appendHistory turns m = (turnOf m).map (appendContribution key turns))
    {messages more : List Message} {entries entries' : List JsonValue}
    (h : messages.foldlM appendHistory [] = .ok entries) (h' : more.foldlM appendHistory entries = .ok entries') :
    TurnsGrow key entries entries' := by
  have hjson (turns : List (String × List (Message × JsonValue))) :
      turns.map (turnJson key) = (Turns.mapBlocks Prod.snd turns).map fun t => turn key t.1 t.2 := by
    simp [Turns.mapBlocks, turnJson]
  have htraced := history_eq_traced hkey happend messages []
  rw [List.map_nil, h] at htraced
  cases ht : messages.foldlM (Turns.trace turnOf) [] with
  | error e => rw [ht] at htraced; cases htraced
  | ok turns =>
    rw [ht] at htraced
    obtain rfl : entries = turns.map (turnJson key) := Except.ok.inj htraced
    rw [history_eq_traced hkey happend] at h'
    cases ht' : more.foldlM (Turns.trace turnOf) turns with
    | error e => rw [ht'] at h'; cases h'
    | ok turns' =>
      rw [ht'] at h'
      obtain rfl : turns'.map (turnJson key) = entries' := Except.ok.inj h'
      have hextends : Turns.Extends turns turns' :=
        foldlM_preorder Turns.Extends.refl Turns.Extends.trans (fun _ _ _ => Turns.extends_trace) ht'
      exact ⟨_, _, hjson turns, hjson turns', hextends.mapBlocks Prod.snd⟩

theorem OpenAIClient.appendHistory_prefix {input input' : List JsonValue} {m : Message}
    (h : appendHistory input m = .ok input') : input <+: input' := by
  unfold appendHistory at h
  cases hrole : m.role with
  | assistant =>
    cases hnative : nativeOutput m with
    | some output =>
      simp only [hrole, hnative, Except.ok.injEq] at h
      exact ⟨output, h⟩
    | none =>
      simp only [hrole, hnative, bind_eq_ok, pure_eq_ok, Except.ok.injEq] at h
      obtain ⟨content, _, rfl⟩ := h
      exact ⟨_, (List.append_assoc ..).symm⟩
  | _ =>
    simp only [hrole, bind_eq_ok, pure_eq_ok, Except.ok.injEq] at h
    obtain ⟨entry, _, rfl⟩ := h
    exact List.prefix_append _ _

theorem CompatibleClient.appendHistory_prefix {messages messages' : List JsonValue} {m : Message}
    (h : appendHistory messages m = .ok messages') : messages <+: messages' := by
  unfold appendHistory at h
  cases hrole : m.role with
  | system =>
    simp only [hrole, Except.ok.injEq] at h
    rw [h]
  | assistant =>
    cases hnative : nativeMessage m with
    | some native =>
      simp only [hrole, hnative, bind_eq_ok, pure_eq_ok, Except.ok.injEq] at h
      obtain ⟨entry, _, rfl⟩ := h
      exact List.prefix_append _ _
    | none =>
      simp only [hrole, hnative, bind_eq_ok, pure_eq_ok, Except.ok.injEq] at h
      obtain ⟨entry, _, rfl⟩ := h
      exact List.prefix_append _ _
  | _ =>
    simp only [hrole, bind_eq_ok, pure_eq_ok, Except.ok.injEq] at h
    obtain ⟨entry, _, rfl⟩ := h
    exact List.prefix_append _ _

namespace Adapter

def Grows (entries entries' : List JsonValue) : Adapter → Prop
  | openai _ | compatible _ => entries <+: entries'
  | anthropic _ => TurnsGrow "content" entries entries'
  | gemini _ => TurnsGrow "parts" entries entries'

variable {json : JsonText} {adapter : Adapter}

theorem history_grows {request : AIRequest} {messages more : List Message} {entries entries' : List JsonValue}
    (h : messages.foldlM (adapter.appendHistory json) (adapter.firstEntries request) = .ok entries)
    (h' : more.foldlM (adapter.appendHistory json) entries = .ok entries') : adapter.Grows entries entries' := by
  cases adapter with
  | openai impl =>
    exact foldlM_preorder List.prefix_refl List.IsPrefix.trans (fun _ _ _ => OpenAIClient.appendHistory_prefix) h'
  | anthropic impl => exact turnsGrow (by decide) AnthropicClient.appendHistory_eq h h'
  | gemini impl => exact turnsGrow (by decide) (GeminiClient.appendHistory_eq json) h h'
  | compatible impl =>
    exact foldlM_preorder List.prefix_refl List.IsPrefix.trans (fun _ _ _ => CompatibleClient.appendHistory_prefix) h'

/-- The body of the later request `b`: its history has grown, and under the same options the rest is the same. -/
structure Extends (adapter : Adapter) (a b : AIRequest) (body body' : JsonValue) : Prop where
  history : ∃ entries entries', body.find? adapter.historyKey = some (.array entries) ∧
    body'.find? adapter.historyKey = some (.array entries') ∧ adapter.Grows entries entries'
  rest : a.tools = b.tools → a.options = b.options →
    ∀ key, key ≠ adapter.historyKey → body.find? key = body'.find? key

theorem makeRequest_extends {a b : AIRequest} (hmessages : Continues a.messages b.messages)
    (hsystem : a.systemMessage = b.systemMessage) {body body' : JsonValue}
    (h : adapter.makeRequest json a = .ok body) (h' : adapter.makeRequest json b = .ok body') :
    adapter.Extends a b body body' := by
  have hinstruction := systemInstruction_continues hmessages hsystem
  refine ⟨?_, ?_⟩
  · obtain ⟨entries, he, hfind⟩ := find?_historyKey h
    obtain ⟨entries', he', hfind'⟩ := find?_historyKey h'
    refine ⟨entries, entries', hfind, hfind', ?_⟩
    have hfirst : adapter.firstEntries b = adapter.firstEntries a := by
      cases adapter with
      | compatible impl => exact congrArg CompatibleClient.systemEntry hinstruction.symm
      | _ => rfl
    obtain ⟨more, hb, _⟩ := hmessages
    rw [hb, hfirst, List.foldlM_append, he] at he'
    exact history_grows he he'
  · intro htools hoptions
    exact (makeRequest_sameBut hsystem hinstruction htools hoptions h h').same

end Adapter

/-- **Requests are append-only**, over every sequence of calls on one session and whichever clients they are on: what
an earlier request sent as its history is sent again, unchanged, before anything new. In one run the rest of the body
stays as it is, too. -/
theorem ClientCall.requests_append_only (json : JsonText) (calls : List ClientCall) (session : Session) :
    ((requests json session calls).Pairwise fun a b => ∀ (adapter : Adapter) (body body' : JsonValue),
      adapter.makeRequest json a = .ok body → adapter.makeRequest json b = .ok body' →
        adapter.Extends a b body body') ∧
    ∀ (c : ClientCall) (s : Session), (c.run json s).log.rounds.Pairwise fun a b =>
      a.request.tools = b.request.tools ∧ a.request.options = b.request.options := by
  refine ⟨(requests_continue calls session).imp ?_, ?_⟩
  · intro a b hab adapter body body' h h'
    exact Adapter.makeRequest_extends hab.1 hab.2 h h'
  · intro c s
    apply (AIClient.generate_continues c.client.base (c.client.env json c.call) s c.call.input c.call.options).rounds.imp
    intro a b hab
    rw [hab.2]
    exact ⟨rfl, rfl⟩

end NeuralPlus
