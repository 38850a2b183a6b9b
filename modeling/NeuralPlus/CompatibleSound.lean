import NeuralPlus.ReplaySound
import NeuralPlus.Transcript

/-!
# The messages of an OpenAI-compatible session

Answers of the provider are replayed as they came, and only some of their
members were checked. When the messages array is well formed depends on the
members that were not: the role of an answer, and what a role that is not
`assistant` leaves the results of its calls to refer to.
-/

namespace NeuralPlus

open Fallible

namespace CompatibleClient

/-! ## Well-formed messages arrays -/

def roles : List String := ["system", "user", "assistant", "tool", "function"]

def Names (entry : JsonValue) (id : String) : Prop :=
  ∃ calls call, entry.find? "tool_calls" = some (.array calls) ∧ call ∈ calls ∧ call.find? "id" = some (.string id)

def lastAssistant (entries : List JsonValue) : Option JsonValue :=
  entries.reverse.find? fun entry => entry.find? "role" = some (.string "assistant")

def Offers (entries : List JsonValue) (id : String) : Prop :=
  ∃ entry, lastAssistant entries = some entry ∧ Names entry id

structure WellFormed (before : List JsonValue) (entry : JsonValue) : Prop where
  object : entry.isObject = true
  role : ∃ role ∈ roles, entry.find? "role" = some (.string role)
  answers : entry.find? "role" = some (.string "tool") →
    ∃ id, entry.find? "tool_call_id" = some (.string id) ∧ Offers before id

/-! ## What the transcript tells -/

def nativeAnswer (m : Message) : Option JsonValue := if m.role = .assistant then nativeMessage m else none

def nativeAnswers (messages : List Message) : List JsonValue := messages.filterMap nativeAnswer

/-- The members of an answer that nothing checks: its role is one of the five; an answer with the
role of a tool refers to a call of the nearest answer from the assistant, and so do the results of
the calls of any answer that is not from the assistant. -/
structure Fits (before : List Message) (m : Message) (native : JsonValue) : Prop where
  role : ∃ role ∈ roles, native.find? "role" = some (.string role)
  answers : native.find? "role" = some (.string "tool") →
    ∃ id, native.find? "tool_call_id" = some (.string id) ∧ Offers (nativeAnswers before) id
  calls : native.find? "role" ≠ some (.string "assistant") → ∀ call ∈ m.toolCalls,
    call.providerMetadata.find? "legacy_function_call" ≠ some (.boolean true) → Offers (nativeAnswers before) call.id

def Replayable (transcript : List Message) : Prop :=
  History.Holds (fun before m => ∀ native, nativeAnswer m = some native → Fits before m native) transcript

/-! ## Entries -/

section
variable {entries : List JsonValue} {entry : JsonValue}

theorem lastAssistant_concat (entries : List JsonValue) (entry : JsonValue) : lastAssistant (entries ++ [entry]) =
    if entry.find? "role" = some (.string "assistant") then some entry else lastAssistant entries := by
  unfold lastAssistant
  rw [List.reverse_append, List.reverse_singleton, List.singleton_append, List.find?_cons]
  by_cases h : entry.find? "role" = some (.string "assistant") <;> simp [h]

theorem lastAssistant_append {others : List JsonValue}
    (h : ∀ e ∈ others, e.find? "role" ≠ some (.string "assistant")) (entries : List JsonValue) :
    lastAssistant (entries ++ others) = lastAssistant entries := by
  induction others using List.reverseRecOn with
  | nil => rw [List.append_nil]
  | append_singleton others e ih =>
    rw [List.forall_mem_append, List.forall_mem_singleton] at h
    rw [← List.append_assoc, lastAssistant_concat, if_neg h.2, ih h.1]

theorem offers_concat_of_assistant (h : entry.find? "role" = some (.string "assistant")) {id : String} :
    Offers (entries ++ [entry]) id ↔ Names entry id := by
  unfold Offers
  rw [lastAssistant_concat, if_pos h]
  simp

theorem offers_concat_of_ne (h : entry.find? "role" ≠ some (.string "assistant")) {id : String} :
    Offers (entries ++ [entry]) id ↔ Offers entries id := by
  unfold Offers
  rw [lastAssistant_concat, if_neg h]

theorem offers_append_of_ne {others : List JsonValue}
    (h : ∀ e ∈ others, e.find? "role" ≠ some (.string "assistant")) {id : String} :
    Offers (entries ++ others) id ↔ Offers entries id := by
  unfold Offers
  rw [lastAssistant_append h]

theorem wellFormed_others {others : List JsonValue}
    (h : ∀ e ∈ others, e.find? "role" ≠ some (.string "assistant")) :
    History.Holds (fun before => WellFormed (entries ++ before)) others ↔ ∀ e ∈ others, WellFormed entries e := by
  have hsame {before after : List JsonValue} {e : JsonValue} (hsplit : others = before ++ e :: after) :
      WellFormed (entries ++ before) e ↔ WellFormed entries e := by
    have hbefore : ∀ e ∈ before, e.find? "role" ≠ some (.string "assistant") := fun e he => h e (by simp [hsplit, he])
    refine ⟨fun hw => ⟨hw.object, hw.role, fun htool => ?_⟩, fun hw => ⟨hw.object, hw.role, fun htool => ?_⟩⟩
    · obtain ⟨id, hid, hoffers⟩ := hw.answers htool
      exact ⟨id, hid, (offers_append_of_ne hbefore).mp hoffers⟩
    · obtain ⟨id, hid, hoffers⟩ := hw.answers htool
      exact ⟨id, hid, (offers_append_of_ne hbefore).mpr hoffers⟩
  refine ⟨fun hall e he => ?_, fun hall before e after hsplit => (hsame hsplit).mpr (hall e (by simp [hsplit]))⟩
  obtain ⟨before, after, hsplit⟩ := List.append_of_mem he
  exact (hsame hsplit).mp (hall before e after hsplit)

theorem find?_role (role : String) (rest : List (String × JsonValue)) :
    (JsonValue.ofMembers (("role", .string role) :: rest)).find? "role" = some (.string role) := by
  rw [JsonValue.find?_ofMembers, OrdMap.find?_cons, if_pos rfl]

theorem role_ne {role other : String} (h : entry.find? "role" = some (.string role)) (hne : role ≠ other) :
    entry.find? "role" ≠ some (.string other) := by
  intro hother
  rw [h] at hother
  exact hne (JsonValue.string.inj (Option.some.inj hother))

theorem wellFormed_of_role {role : String} (hobject : entry.isObject = true) (hmem : role ∈ roles)
    (hrole : entry.find? "role" = some (.string role)) (hne : role ≠ "tool") : WellFormed entries entry :=
  ⟨hobject, ⟨role, hmem, hrole⟩, fun htool => absurd htool (role_ne hrole hne)⟩

theorem wellFormed_system (system : String) : History.Holds WellFormed (systemEntry system) := by
  unfold systemEntry
  by_cases h : system = ""
  · rw [if_pos h]
    exact .nil
  · rw [if_neg h, History.holds_singleton]
    exact wellFormed_of_role rfl (by decide) (find?_role _ _) (by decide)

theorem lastAssistant_system (system : String) : lastAssistant (systemEntry system) = none := by
  unfold systemEntry
  by_cases h : system = ""
  · rw [if_pos h]
    rfl
  · rw [if_neg h, ← List.nil_append [_], lastAssistant_concat, if_neg (role_ne (find?_role _ _) (by decide))]
    rfl

theorem find?_roleMessage {role : String} {m : Message} (h : roleMessage role m = .ok entry) :
    entry.isObject = true ∧ entry.find? "role" = some (.string role) := by
  unfold roleMessage at h
  obtain ⟨content, _, h⟩ := bind_eq_ok.mp h
  obtain rfl := Except.ok.inj h
  exact ⟨rfl, find?_role _ _⟩

theorem wellFormed_toolEntry (entries : List JsonValue) (m : Message) (content : String) :
    (toolEntry m content).find? "role" ≠ some (.string "assistant") ∧
      (WellFormed entries (toolEntry m content) ↔
        (m.providerMetadata.find? "legacy_function_call" ≠ some (.boolean true) → Offers entries m.toolCallId)) := by
  unfold toolEntry isLegacy
  by_cases h : m.providerMetadata.find? "legacy_function_call" = some (.boolean true)
  · rw [if_pos (by simpa using h)]
    refine ⟨role_ne (find?_role _ _) (by decide), fun _ hno => absurd h hno, fun _ => ?_⟩
    exact wellFormed_of_role rfl (by decide) (find?_role _ _) (by decide)
  · rw [if_neg (by simpa using h)]
    have hid : (JsonValue.ofMembers [("role", .string "tool"), ("tool_call_id", .string m.toolCallId),
        ("content", .string content)]).find? "tool_call_id" = some (.string m.toolCallId) := by
      rw [JsonValue.find?_ofMembers]
      rfl
    refine ⟨role_ne (find?_role _ _) (by decide), ?_, ?_⟩
    · intro hw _
      obtain ⟨id, hfind, hoffers⟩ := hw.answers (find?_role _ _)
      rw [hid] at hfind
      obtain rfl := JsonValue.string.inj (Option.some.inj hfind)
      exact hoffers
    · intro hoffers
      exact ⟨rfl, ⟨"tool", by decide, find?_role _ _⟩, fun _ => ⟨_, hid, hoffers h⟩⟩

end

/-! ## Answers of the provider -/

theorem find?_withAudioId {key : String} (hkey : "audio" ≠ key) (native : JsonValue) :
    (withAudioId native).find? key = native.find? key := by
  unfold withAudioId
  split
  · rfl
  · rfl
  · exact JsonValue.find?_set_ne hkey _ _

theorem isObject_withAudioId (native : JsonValue) : (withAudioId native).isObject = native.isObject := by
  unfold withAudioId
  split
  · rfl
  · rfl
  · next haudio =>
    have hobject := JsonValue.isObject_of_find? haudio
    rw [JsonValue.isObject_set (JsonValue.acceptsKey_of_isObject hobject), hobject]

theorem names_withAudioId {native : JsonValue} {id : String} : Names (withAudioId native) id ↔ Names native id := by
  unfold Names
  rw [find?_withAudioId (by decide)]

section
variable {json : JsonText} {malformed : String → Exc} {unsupported : String → Exc} {native : JsonValue}
  {calls : List ToolCall}

theorem parseToolCalls_names (h : parseToolCalls json malformed unsupported native = .ok calls) :
    ∀ call ∈ calls, Names native call.id := by
  intro call hcall
  obtain ⟨entry, hentry, hok⟩ := mem_of_forall₂ (parseToolCalls_ok h).flip call hcall
  obtain ⟨entries, hfind, hmem⟩ := mem_arrayMember hentry
  exact ⟨entries, entry, hfind, hmem, (parseToolCall_ok hok).1⟩

theorem withLegacyCall_ok {request : AIRequest} {calls' : List ToolCall}
    (h : withLegacyCall json malformed request native calls = .ok calls') : ∀ call ∈ calls',
    call ∈ calls ∨ call.providerMetadata.find? "legacy_function_call" = some (.boolean true) := by
  intro call hcall
  rcases withLegacyCall_cases h with ⟨rfl, _⟩ | ⟨m, name, rawArguments, invalid, _, _, _, rfl⟩
  · exact .inl hcall
  · rw [List.mem_singleton.mp hcall]
    refine .inr ?_
    show (JsonValue.ofMembers _).find? _ = _
    rw [JsonValue.find?_ofMembers]
    rfl

end

theorem parseResponse_calls {json : JsonText} {request : AIRequest} {response : HttpResponse} {r : AIResponse}
    (h : parseResponse json request response = .ok r) :
    ∃ native, nativeAnswer r.message = some native ∧ native.isObject = true ∧ r.message.role = .assistant ∧
      replayMessage native = .ok (withAudioId native) ∧ ∀ call ∈ r.message.toolCalls,
        call.providerMetadata.find? "legacy_function_call" ≠ some (.boolean true) → Names native call.id := by
  obtain ⟨_, native, _, _, hobject, hreplay, hrole, hmetadata⟩ := parseResponse_ok h
  have hnative := nativeMessage_of_metadata hobject hmetadata
  refine ⟨native, by rw [nativeAnswer, if_pos hrole, hnative], hobject, hrole, hreplay, ?_⟩
  unfold parseResponse at h
  simp only [bind_eq_ok, Prod.exists] at h
  obtain ⟨body, requestId, _, choice, hchoice, parsed, hparsed, contents, _, calls, hcalls, calls', hcalls', _, _, h⟩ := h
  have hsame : parsed = native := by
    have hparsedNative := nativeMessage_of_metadata (parseMessage_ok hchoice hparsed).2
      (show r.message.providerMetadata = nativeMetadata "openai_compatible" "message" parsed by rw [← Except.ok.inj h]; rfl)
    rw [hnative] at hparsedNative
    exact (Option.some.inj hparsedNative).symm
  subst hsame
  intro call hcall hlegacy
  rw [← Except.ok.inj h] at hcall
  rcases withLegacyCall_ok hcalls' call hcall with hmem | hyes
  · exact parseToolCalls_names hcalls call hmem
  · exact absurd hyes hlegacy

/-! ## The entries of a transcript -/

def Mirrors (messages : List Message) (entries : List JsonValue) : Prop :=
  (History.Holds WellFormed entries ↔ Replayable messages) ∧ ∀ id, Offers entries id ↔ Offers (nativeAnswers messages) id

theorem nativeAnswer_of_ne {m : Message} (h : m.role ≠ .assistant) : nativeAnswer m = none := by
  rw [nativeAnswer, if_neg h]

theorem nativeAnswers_of_ne {messages : List Message} (h : ∀ m ∈ messages, m.role ≠ .assistant) :
    nativeAnswers messages = [] := by
  apply List.filterMap_eq_nil_iff.mpr
  intro m hm
  exact nativeAnswer_of_ne (h m hm)

theorem replayable_append_of_ne {messages others : List Message} (h : ∀ m ∈ others, m.role ≠ .assistant) :
    Replayable (messages ++ others) ↔ Replayable messages := by
  refine ⟨fun hr => hr.left, fun hr => hr.append ?_⟩
  intro before m after hsplit native hnative
  rw [nativeAnswer_of_ne (h m (by rw [hsplit]; simp))] at hnative
  cases hnative

theorem replayable_of_assistant {messages : List Message}
    (h : ∀ native ∈ nativeAnswers messages, native.find? "role" = some (.string "assistant")) : Replayable messages := by
  intro before m after hsplit native hnative
  have hrole := h native (List.mem_filterMap.mpr ⟨m, by rw [hsplit]; simp, hnative⟩)
  exact ⟨⟨"assistant", by decide, hrole⟩, fun htool => absurd htool (role_ne hrole (by decide)), fun hne => absurd hrole hne⟩

theorem mirrors_input {messages : List Message} {entries : List JsonValue} (h : Mirrors messages entries)
    {input : Message} (hrole : input.role = .user) {entry : JsonValue} (he : roleMessage "user" input = .ok entry) :
    Mirrors (messages ++ [input]) (entries ++ [entry]) := by
  obtain ⟨hobject, huser⟩ := find?_roleMessage he
  have hne : ∀ m ∈ [input], m.role ≠ .assistant := by simp [hrole]
  refine ⟨?_, fun id => ?_⟩
  · rw [replayable_append_of_ne hne, ← h.1]
    refine ⟨History.Holds.left, fun hw => hw.concat ?_⟩
    exact wellFormed_of_role hobject (by decide) huser (by decide)
  · rw [offers_concat_of_ne (role_ne huser (by decide)), nativeAnswers, List.filterMap_append]
    rw [show [input].filterMap nativeAnswer = [] from nativeAnswers_of_ne hne, List.append_nil]
    exact h.2 id

section
variable {messages : List Message} {entries : List JsonValue} {m : Message} {native : JsonValue}
  {answers : List Message} {results : List JsonValue}

theorem wellFormed_results {calls : List ToolCall} (hanswers : List.Forall₂ AIClient.Answers calls answers)
    (hresults : List.Forall₂ (fun answer entry => ∃ content, entry = toolEntry answer content) answers results) :
    (∀ e ∈ results, WellFormed entries e) ↔ ∀ call ∈ calls,
      call.providerMetadata.find? "legacy_function_call" ≠ some (.boolean true) → Offers entries call.id := by
  have hleft := History.forall_iff_of_forall₂ (P := fun answer : Message =>
      answer.providerMetadata.find? "legacy_function_call" ≠ some (.boolean true) → Offers entries answer.toolCallId)
    (Q := WellFormed entries) (fun answer entry ⟨content, he⟩ => by
      rw [he]
      exact (wellFormed_toolEntry entries answer content).2.symm) hresults
  rw [← hleft]
  refine (History.forall_iff_of_forall₂ ?_ hanswers).symm
  intro call answer ⟨_, hid, _, hmetadata, _⟩
  rw [hid, hmetadata]

theorem fits_iff (hoffers : ∀ id, Offers entries id ↔ Offers (nativeAnswers messages) id)
    (hobject : native.isObject = true) (hcalls : ∀ call ∈ m.toolCalls,
      call.providerMetadata.find? "legacy_function_call" ≠ some (.boolean true) → Names native call.id) :
    Fits messages m native ↔ WellFormed entries (withAudioId native) ∧ ∀ call ∈ m.toolCalls,
      call.providerMetadata.find? "legacy_function_call" ≠ some (.boolean true) →
        Offers (entries ++ [withAudioId native]) call.id := by
  have hrole := find?_withAudioId (show "audio" ≠ "role" by decide) native
  have hid := find?_withAudioId (show "audio" ≠ "tool_call_id" by decide) native
  constructor
  · intro hf
    refine ⟨⟨by rw [isObject_withAudioId, hobject], by rw [hrole]; exact hf.role, fun htool => ?_⟩, ?_⟩
    · rw [hrole] at htool
      obtain ⟨id, hfind, hoffered⟩ := hf.answers htool
      exact ⟨id, by rw [hid, hfind], (hoffers id).mpr hoffered⟩
    · intro call hcall hlegacy
      by_cases hassistant : (withAudioId native).find? "role" = some (.string "assistant")
      · rw [offers_concat_of_assistant hassistant, names_withAudioId]
        exact hcalls call hcall hlegacy
      · rw [offers_concat_of_ne hassistant, hoffers]
        rw [hrole] at hassistant
        exact hf.calls hassistant call hcall hlegacy
  · intro ⟨hw, hall⟩
    refine ⟨by rw [← hrole]; exact hw.role, fun htool => ?_, ?_⟩
    · rw [← hrole] at htool
      obtain ⟨id, hfind, hoffered⟩ := hw.answers htool
      exact ⟨id, by rw [← hid, hfind], (hoffers id).mp hoffered⟩
    · intro hne call hcall hlegacy
      rw [← hrole] at hne
      have hoffered := hall call hcall hlegacy
      rwa [offers_concat_of_ne hne, hoffers] at hoffered

theorem replayable_block (hnative : nativeAnswer m = some native) (hothers : ∀ a ∈ answers, a.role ≠ .assistant) :
    Replayable (messages ++ m :: answers) ↔ Replayable messages ∧ Fits messages m native := by
  rw [← List.singleton_append, ← List.append_assoc, replayable_append_of_ne hothers]
  constructor
  · exact fun hr => ⟨hr.left, hr.last native hnative⟩
  · intro ⟨hr, hf⟩
    apply History.Holds.concat hr
    intro native' hnative'
    rw [hnative] at hnative'
    rw [← Option.some.inj hnative']
    exact hf

theorem mirrors_block (h : Mirrors messages entries) (hnative : nativeAnswer m = some native)
    (hobject : native.isObject = true) (hcalls : ∀ call ∈ m.toolCalls,
      call.providerMetadata.find? "legacy_function_call" ≠ some (.boolean true) → Names native call.id)
    (hanswers : List.Forall₂ AIClient.Answers m.toolCalls answers)
    (hresults : List.Forall₂ (fun answer entry => ∃ content, entry = toolEntry answer content) answers results) :
    Mirrors (messages ++ m :: answers) (entries ++ withAudioId native :: results) := by
  have hothers : ∀ a ∈ answers, a.role ≠ .assistant := by
    intro a ha
    rw [AIClient.role_of_answers hanswers a ha]
    decide
  have htools : ∀ e ∈ results, e.find? "role" ≠ some (.string "assistant") := by
    have hall := History.forall_iff_of_forall₂ (P := fun _ : Message => True)
      (Q := fun e : JsonValue => e.find? "role" ≠ some (.string "assistant")) (fun answer entry ⟨content, he⟩ => by
        rw [he, true_iff]
        exact (wellFormed_toolEntry entries answer content).1) hresults
    exact hall.mp (fun _ _ => trivial)
  refine ⟨?_, fun id => ?_⟩
  · rw [replayable_block hnative hothers, ← h.1, fits_iff h.2 hobject hcalls, ← List.singleton_append,
      ← List.append_assoc, History.holds_append, wellFormed_others htools, wellFormed_results hanswers hresults,
      History.holds_append, History.holds_singleton, List.append_nil, and_assoc]
  · rw [← List.singleton_append, ← List.append_assoc, offers_append_of_ne htools, nativeAnswers, List.filterMap_append,
      List.filterMap_cons, hnative, show answers.filterMap nativeAnswer = [] from nativeAnswers_of_ne hothers]
    dsimp only
    by_cases hassistant : native.find? "role" = some (.string "assistant")
    · rw [offers_concat_of_assistant (by rw [find?_withAudioId (by decide), hassistant]),
        offers_concat_of_assistant hassistant, names_withAudioId]
    · rw [offers_concat_of_ne (by rwa [find?_withAudioId (by decide)]), offers_concat_of_ne hassistant]
      exact h.2 id

end

/-! ## The requests of a session -/

theorem appendHistory_answers : ∀ {answers : List Message} {entries entries' : List JsonValue},
    (∀ a ∈ answers, a.role = .tool) → answers.foldlM appendHistory entries = .ok entries' →
    ∃ results, entries' = entries ++ results ∧
      List.Forall₂ (fun answer entry => ∃ content, entry = toolEntry answer content) answers results
  | [], _, _, _, h => ⟨[], by rw [List.append_nil, Except.ok.inj h], .nil⟩
  | answer :: answers, entries, entries', htools, h => by
    obtain ⟨htool, hrest⟩ := List.forall_mem_cons.mp htools
    rw [List.foldlM_cons, bind_eq_ok] at h
    obtain ⟨next, hnext, h⟩ := h
    unfold appendHistory at hnext
    rw [htool] at hnext
    dsimp only at hnext
    obtain ⟨content, _, hnext⟩ := bind_eq_ok.mp hnext
    obtain rfl := Except.ok.inj hnext
    obtain ⟨results, hentries, hall⟩ := appendHistory_answers hrest h
    exact ⟨_, by rw [hentries, List.append_assoc, List.singleton_append], .cons ⟨content, rfl⟩ hall⟩

def Mirrored (messages : List Message) : Prop :=
  ∀ system entries, messages.foldlM appendHistory (systemEntry system) = .ok entries → Mirrors messages entries

theorem mirrored_nil : Mirrored [] := by
  intro system entries h
  obtain rfl := Except.ok.inj h
  refine ⟨⟨fun _ => .nil, fun _ => wellFormed_system system⟩, fun id => ?_⟩
  unfold Offers
  rw [lastAssistant_system, show lastAssistant (nativeAnswers []) = none from rfl]

theorem keeps_mirrored {json : JsonText} {client : BuiltInClient} {impl : Impl}
    (hclient : client.adapter = .compatible impl) (call : Call) : client.base.Keeps (client.env json call) Mirrored where
  input := by
    intro messages input hm hvalid system entries h
    have hrole := (AIClient.validateInput_ok hvalid).1
    rw [List.foldlM_append, bind_eq_ok] at h
    obtain ⟨before, hbefore, h⟩ := h
    rw [List.foldlM_cons, bind_eq_ok] at h
    obtain ⟨next, hnext, h⟩ := h
    obtain rfl := Except.ok.inj h
    unfold appendHistory at hnext
    rw [hrole] at hnext
    dsimp only at hnext
    obtain ⟨entry, hentry, hnext⟩ := bind_eq_ok.mp hnext
    obtain rfl := Except.ok.inj hnext
    exact mirrors_input (hm system before hbefore) hrole hentry
  block := by
    intro messages b _ request hm hwf hsent system entries h
    obtain ⟨response, hparse⟩ := Adapter.generateOnce_ok hsent
    rw [hclient] at hparse
    obtain ⟨native, hnative, hobject, hrole, hreplay, hcalls⟩ := parseResponse_calls hparse
    rw [List.foldlM_append, bind_eq_ok] at h
    obtain ⟨before, hbefore, h⟩ := h
    rw [AIClient.Block.messages, List.foldlM_cons, bind_eq_ok] at h
    obtain ⟨next, hnext, h⟩ := h
    rw [nativeAnswer, if_pos hrole] at hnative
    unfold appendHistory at hnext
    rw [hrole] at hnext
    dsimp only at hnext
    rw [hnative] at hnext
    dsimp only at hnext
    rw [hreplay, ok_bind] at hnext
    obtain rfl := Except.ok.inj hnext
    obtain ⟨results, rfl, hresults⟩ := appendHistory_answers (AIClient.role_of_answers hwf.2) h
    rw [List.append_assoc, List.singleton_append]
    exact mirrors_block (hm system before hbefore) (by rw [nativeAnswer, if_pos hrole, hnative]) hobject hcalls hwf.2
      hresults

theorem makeRequest_messages {config : OpenAICompatibleConfig} {request : AIRequest} {body : JsonValue}
    (h : makeRequest config request = .ok body) :
    ∃ messages, request.messages.foldlM appendHistory (systemEntry (systemInstruction request)) = .ok messages ∧
      body.find? "messages" = some (.array messages) := by
  unfold makeRequest at h
  simp only [bind_eq_ok, pure_eq_ok, Except.ok.injEq] at h
  obtain ⟨options, hoptions, messages, hmessages, withDeclared, htools, rfl⟩ := h
  refine ⟨messages, hmessages, ?_⟩
  have haccepts := JsonValue.acceptsKey_of_isObject (mergedProviderOptions_ok hoptions)
  rw [find?_setIfSome_ne (by decide), find?_setIfSome_ne (by decide), withTools_ok htools (by decide),
    JsonValue.find?_set (by simpa using haccepts), if_pos rfl]

/-- **When the messages array of a session's requests is well formed**: exactly when the answers it
replays fit the members that nothing checked. -/
theorem messages_wellFormed_iff {json : JsonText} {client : BuiltInClient} {impl : Impl}
    (hclient : client.adapter = .compatible impl) {session : Session} (hempty : session.messages = [])
    (calls : List Call) (call : Call) {r : Round}
    (hr : r ∈ (client.generate json (client.generateAll json session calls) call).log.rounds) {body : JsonValue}
    (hbody : makeRequest impl.config r.request = .ok body) :
    ∃ messages, body.find? "messages" = some (.array messages) ∧
      (History.Holds WellFormed messages ↔ Replayable r.request.messages) := by
  have hkeeps : ∀ call, client.base.Keeps (client.env json call) Mirrored := keeps_mirrored hclient
  have hmirrored := BuiltInClient.keeps_round hkeeps mirrored_nil hempty calls call hr
  obtain ⟨messages, hmessages, hfind⟩ := makeRequest_messages hbody
  exact ⟨messages, hfind, (hmirrored _ _ hmessages).1⟩

def localModel : ModelDescriptor := { provider := .openaiCompatible, id := "local-test" }

def localClient : BuiltInClient :=
  { base := { AIClient.plainClient with model := localModel }
    adapter := .compatible { config := { model := localModel, baseUrl := "" }, endpoint := "", apiKey := none, valid := rfl }
    model_eq := rfl }

def localCall : Call :=
  { runId := "run-1"
    send := fun _ _ => .ok { status := 200, body := "" }
    invoke := fun _ _ _ _ _ => .error .unknown
    schedule := fun _ => []
    input := .userText "hello"
    options := {} }

def choiceBody (message : List (String × JsonValue)) : JsonText :=
  fixedText (.ofMembers [("choices", .array [.ofMembers [("message", .ofMembers message)]])])

def secondRound (message : List (String × JsonValue)) : Round :=
  ((localClient.generate (choiceBody message)
    (localClient.generateAll (choiceBody message) { id := "session-1" } [localCall]) localCall).log.rounds[0]?).getD
      { request := sampleRequest }

def userEntry : JsonValue := .ofMembers [("role", .string "user"), ("content", .string "hello")]

/-- The response leaves out the role of its message, which is replayed without one. -/
theorem sparse_replayed : ∃ body,
    secondRound [("content", .string "ok")] ∈ (localClient.generate (choiceBody [("content", .string "ok")])
      (localClient.generateAll (choiceBody [("content", .string "ok")]) { id := "session-1" } [localCall])
      localCall).log.rounds ∧
    makeRequest { model := localModel, baseUrl := "" } (secondRound [("content", .string "ok")]).request = .ok body ∧
    body.find? "messages" = some (.array [userEntry, .ofMembers [("content", .string "ok")], userEntry]) ∧
    ¬ History.Holds WellFormed [userEntry, .ofMembers [("content", .string "ok")], userEntry] := by
  refine ⟨_, List.mem_of_getElem? (i := 0) rfl, rfl, rfl, ?_⟩
  intro h
  obtain ⟨role, _, hrole⟩ := (h [userEntry] _ [userEntry] rfl).role
  rw [JsonValue.find?_ofMembers] at hrole
  cases hrole

theorem messages_wellFormed_assistant : ∃ body messages,
    makeRequest { model := localModel, baseUrl := "" }
      (secondRound [("role", .string "assistant"), ("content", .string "ok")]).request = .ok body ∧
    body.find? "messages" = some (.array messages) ∧ History.Holds WellFormed messages := by
  have hr : secondRound [("role", .string "assistant"), ("content", .string "ok")] ∈
      (localClient.generate (choiceBody [("role", .string "assistant"), ("content", .string "ok")])
        (localClient.generateAll (choiceBody [("role", .string "assistant"), ("content", .string "ok")])
          { id := "session-1" } [localCall]) localCall).log.rounds := List.mem_of_getElem? (i := 0) rfl
  have hbody : makeRequest { model := localModel, baseUrl := "" }
      (secondRound [("role", .string "assistant"), ("content", .string "ok")]).request = .ok _ := rfl
  obtain ⟨messages, hfind, hiff⟩ := messages_wellFormed_iff (show localClient.adapter = .compatible _ from rfl)
    (show ({ id := "session-1" } : Session).messages = [] from rfl) [localCall] localCall hr hbody
  refine ⟨_, messages, hbody, hfind, hiff.mpr (replayable_of_assistant ?_)⟩
  intro native hnative
  obtain rfl := List.mem_singleton.mp (show native ∈
    [JsonValue.ofMembers [("role", .string "assistant"), ("content", .string "ok")]] from hnative)
  exact find?_role _ _

end CompatibleClient

end NeuralPlus
