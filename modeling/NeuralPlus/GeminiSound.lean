import NeuralPlus.History
import NeuralPlus.ReplaySound
import NeuralPlus.Transcript

/-!
# Calls and results on the Gemini wire

A call is replayed from native content, from its own metadata, or anew, and its
result takes an id only from the metadata of the tool message. The two agree
under a condition on the transcript, message by message.
-/

namespace NeuralPlus

open Fallible

namespace GeminiClient

variable {json : JsonText}

/-! ## The parts of an encoded history -/

def turnParts (turn : JsonValue) : List JsonValue :=
  match turn.find? "parts" with
  | some (.array parts) => parts
  | _ => []

def partsOf (contents : List JsonValue) : List JsonValue := contents.flatMap turnParts

def emitted (json : JsonText) (m : Message) : List JsonValue :=
  match turnOf json m with
  | .ok (some (_, parts)) => parts
  | _ => []

theorem partsOf_turnJson (turns : List (String × List (Message × JsonValue))) :
    partsOf (turns.map (turnJson "parts")) = (Turns.flatten turns).map fun b => b.2.2 := by
  unfold partsOf Turns.flatten
  rw [List.flatMap_map, List.map_flatMap]
  apply List.flatMap_congr
  intro t _
  unfold turnParts turnJson
  rw [find?_turn (by decide)]
  simp

theorem partsOf_history {messages : List Message} {contents : List JsonValue}
    (h : messages.foldlM (appendHistory json) [] = .ok contents) :
    partsOf contents = messages.flatMap (emitted json) := by
  rw [history_eq] at h
  cases ht : tracedTurns json messages with
  | error e => rw [ht] at h; cases h
  | ok turns =>
    rw [ht] at h
    cases h
    have hc : ∀ m t, turnOf json m = .ok t → (match turnOf json m with
        | .ok (some (role, parts)) => parts.map (Prod.mk role)
        | _ => []) = t.elim [] fun t => t.2.map (Prod.mk t.1) := by
      intro m t hm
      rw [hm]
      cases t <;> rfl
    rw [partsOf_turnJson, Turns.flatten_traceAll hc ht, List.map_flatMap]
    apply List.flatMap_congr
    intro m _
    unfold emitted
    cases turnOf json m with
    | error e => rfl
    | ok t =>
      cases t with
      | none => rfl
      | some t => simp [Function.comp_def]

/-! ## Correlation -/

def isCall (part : JsonValue) : Bool := part.contains "functionCall"

/-- The two parts agree on the name, and on the id: absent from both, or the same in both. -/
def Correlate (call response : JsonValue) : Prop :=
  (call.member "functionCall").find? "name" = (response.member "functionResponse").find? "name" ∧
    (call.member "functionCall").find? "id" = (response.member "functionResponse").find? "id"

def AnsweredBy (call : ToolCall) (m : Message) : Prop :=
  m.role = .tool ∧ m.toolCallId = call.id ∧ m.toolName = call.name

def AnsweredInOrder (transcript : List Message) : Prop :=
  ∀ before m rest, transcript = before ++ m :: rest → m.role = .assistant →
    ∃ answers after, rest = answers ++ after ∧ List.Forall₂ AnsweredBy m.toolCalls answers

theorem AnsweredInOrder.append {before after : List Message} (hbefore : AnsweredInOrder before)
    (hafter : AnsweredInOrder after) : AnsweredInOrder (before ++ after) := by
  intro before' m rest heq hrole
  rcases List.append_eq_append_iff.mp heq with ⟨middle, _, hmiddle⟩ | ⟨middle, hsplit, hmiddle⟩
  · exact hafter middle m rest hmiddle hrole
  · cases middle with
    | nil => exact hafter [] m rest hmiddle.symm hrole
    | cons x middle =>
      obtain ⟨rfl, rfl⟩ := List.cons.inj hmiddle
      obtain ⟨answers, after', rfl, hforall⟩ := hbefore before' m middle hsplit hrole
      exact ⟨answers, after' ++ after, List.append_assoc .., hforall⟩

theorem answeredInOrder_of_ne {messages : List Message} (h : ∀ m ∈ messages, m.role ≠ .assistant) :
    AnsweredInOrder messages := by
  intro before m rest heq hrole
  exact absurd hrole (h m (by rw [heq]; exact List.mem_append_right _ (List.mem_cons_self ..)))

theorem answeredInOrder_block {m : Message} {answers : List Message}
    (h : List.Forall₂ AnsweredBy m.toolCalls answers) (hanswers : ∀ a ∈ answers, a.role ≠ .assistant) :
    AnsweredInOrder (m :: answers) := by
  intro before m' rest heq hrole
  cases before with
  | nil =>
    obtain ⟨rfl, rfl⟩ := List.cons.inj heq
    exact ⟨_, [], (List.append_nil _).symm, h⟩
  | cons x before =>
    obtain ⟨_, hrest⟩ := List.cons.inj heq
    exact answeredInOrder_of_ne hanswers before m' rest hrest hrole

/-- **Whatever a generation of any client appends is answered in order.** -/
theorem keeps_answeredInOrder (client : AIClient) (env : RunEnv) : client.Keeps env AnsweredInOrder where
  input := fun hm hv => hm.append (answeredInOrder_of_ne fun m h => by
    rw [List.mem_singleton.mp h, (AIClient.validateInput_ok hv).1]
    decide)
  block := by
    intro _ _ _ _ hm hwf _
    refine hm.append (answeredInOrder_block (hwf.2.imp fun _ _ h => ⟨h.1, h.2.1, h.2.2.1⟩) ?_)
    intro a ha
    rw [AIClient.role_of_answers hwf.2 a ha]
    decide

def CorrelatedAt (json : JsonText) (before : List Message) (m : Message) (answers : List Message) : Prop :=
  ∀ contents contents₁ contents₂, before.foldlM (appendHistory json) [] = .ok contents →
    (before ++ [m]).foldlM (appendHistory json) [] = .ok contents₁ →
    (before ++ m :: answers).foldlM (appendHistory json) [] = .ok contents₂ →
    ∃ added responses, partsOf contents₁ = partsOf contents ++ added ∧
      partsOf contents₂ = partsOf contents₁ ++ responses ∧ List.Forall₂ Correlate (added.filter isCall) responses

def Correlated (json : JsonText) (transcript : List Message) : Prop :=
  ∀ before m answers after, transcript = before ++ m :: (answers ++ after) → m.role = .assistant →
    answers.length = m.toolCalls.length → CorrelatedAt json before m answers

/-! ## The condition -/

/-- The replayed part names the tool of the answer, and carries its id if and only if the answer will. -/
def Matches (part : JsonValue) (answer : Message) : Prop :=
  (part.member "functionCall").find? "name" = some (.string answer.toolName) ∧
    (part.member "functionCall").find? "id" =
      if providerSuppliedId answer then some (.string answer.toolCallId) else none

/-- A call encoded anew has its id on the wire, so the answer's metadata has to supply one too. -/
def CallMatches (call : ToolCall) (answer : Message) : Prop :=
  if call.providerMetadata.contains "functionCall" then Matches call.providerMetadata answer
  else providerSuppliedId answer = true

def carriesCall (c : Content) : Prop := c.type = .extension ∧ isCall c.providerData = true

def Supplied (m : Message) (answers : List Message) : Prop :=
  match nativeContent m with
  | some native => List.Forall₂ Matches ((turnParts native).filter isCall) answers
  | none => (∀ c ∈ m.contents, ¬ carriesCall c) ∧ List.Forall₂ CallMatches m.toolCalls answers

def AllSupplied (transcript : List Message) : Prop :=
  ∀ before m answers after, transcript = before ++ m :: (answers ++ after) → m.role = .assistant →
    answers.length = m.toolCalls.length → Supplied m answers

/-! ## What each message adds -/

theorem find?_functionResponse (json : JsonText) (m : Message) (responseParts : List JsonValue) :
    ((functionResponse json m responseParts).member "functionResponse").find? "name" = some (.string m.toolName) ∧
    ((functionResponse json m responseParts).member "functionResponse").find? "id" =
      if providerSuppliedId m then some (.string m.toolCallId) else none := by
  unfold functionResponse
  rw [JsonValue.member_singleton, find?_setIfSome_ne (by decide), find?_setIfSome_ne (by decide),
    find?_setIfSome_ne (by decide), find?_setIfSome_self rfl, JsonValue.find?_ofMembers, JsonValue.find?_ofMembers]
  refine ⟨rfl, ?_⟩
  by_cases hs : providerSuppliedId m = true
  · simp [hs]
  · simp [hs, OrdMap.find?_cons, OrdMap.find?_nil]

theorem emitted_tool {m : Message} (hrole : m.role = .tool) (h : Returns (turnOf json m)) :
    ∃ responseParts, emitted json m = [functionResponse json m responseParts] := by
  unfold emitted
  unfold turnOf at h ⊢
  rw [hrole] at h ⊢
  cases hp : toolResponseParts m with
  | error e => rw [hp] at h; exact absurd h (not_returns_error e)
  | ok responseParts => exact ⟨responseParts, rfl⟩

theorem correlate_iff_matches {call : JsonValue} {m : Message} (responseParts : List JsonValue) :
    Correlate call (functionResponse json m responseParts) ↔ Matches call m := by
  obtain ⟨hname, hid⟩ := find?_functionResponse json m responseParts
  unfold Correlate Matches
  rw [hname, hid]

theorem isCall_functionCall (call : ToolCall) : isCall (functionCall call) = true := by
  unfold functionCall
  by_cases hc : call.providerMetadata.contains "functionCall" = true
  · rw [if_pos hc]
    exact hc
  · rw [if_neg hc]
    unfold isCall JsonValue.contains
    rw [JsonValue.find?_ofMembers]
    rfl

theorem matches_functionCall {call : ToolCall} {answer : Message} (h : AnsweredBy call answer) :
    Matches (functionCall call) answer ↔ CallMatches call answer := by
  unfold functionCall CallMatches
  by_cases hc : call.providerMetadata.contains "functionCall" = true
  · rw [if_pos hc, if_pos hc]
  · rw [if_neg hc, if_neg hc]
    obtain ⟨hrole, hid, hname⟩ := h
    have hne : call.id ≠ "" := by
      rw [← hid]
      exact Message.toolCallId_ne hrole
    unfold Matches
    rw [JsonValue.member_singleton, if_neg hne, find?_setIfSome_ne (by decide), find?_setIfSome_self rfl,
      JsonValue.find?_ofMembers, hname, hid]
    by_cases hs : providerSuppliedId answer = true
    · simp [hs, OrdMap.find?_cons]
    · simp [hs]

theorem isCall_singleton {key : String} (hkey : key ≠ "functionCall") (v : JsonValue) :
    isCall (.ofMembers [(key, v)]) = false := by
  unfold isCall JsonValue.contains
  rw [JsonValue.find?_ofMembers, OrdMap.find?_cons, if_neg hkey]
  rfl

theorem isCall_part {c : Content} {p : JsonValue} (h : part c = .ok p) : isCall p = true ↔ carriesCall c := by
  unfold part at h
  unfold carriesCall
  obtain ⟨ht, hs⟩ | ⟨ht, hs⟩ | ⟨ht | ht | ht, hs | hs⟩ := c.source_cases <;> rw [ht, hs] at h
  case inl =>
    cases h
    simp [ht, isCall_singleton]
  case inr.inl =>
    by_cases hp : c.provider = "gemini"
    · simp only [hp, if_true] at h
      cases h
      simp [ht]
    · simp only [hp, if_false] at h
      cases h
  all_goals
    dsimp only at h
    first
      | split at h
        · cases h
          simp [ht, fileData, isCall_singleton]
        · cases h
      | cases h
        simp [ht, inlineData, isCall_singleton]

theorem correlate_answers {calls : List JsonValue} {answers : List Message}
    (h : ∀ m ∈ answers, m.role = .tool ∧ Returns (turnOf json m)) :
    List.Forall₂ Correlate calls (answers.flatMap (emitted json)) ↔ List.Forall₂ Matches calls answers := by
  induction answers generalizing calls with
  | nil => simp
  | cons m answers ih =>
    obtain ⟨⟨hrole, hreturns⟩, hrest⟩ := List.forall_mem_cons.mp h
    obtain ⟨responseParts, he⟩ := emitted_tool hrole hreturns
    rw [List.flatMap_cons, he, List.singleton_append, List.forall₂_cons_right_iff, List.forall₂_cons_right_iff]
    simp only [correlate_iff_matches, ih hrest]

theorem matches_iff_supplied {m : Message} {answers : List Message} (hrole : m.role = .assistant)
    (hanswered : List.Forall₂ AnsweredBy m.toolCalls answers) (hreturns : Returns (turnOf json m)) :
    List.Forall₂ Matches ((emitted json m).filter isCall) answers ↔ Supplied m answers := by
  unfold emitted Supplied
  unfold turnOf at hreturns ⊢
  rw [hrole] at hreturns ⊢
  cases hn : nativeContent m with
  | some native =>
    dsimp only
    unfold turnParts
    cases native.find? "parts" with
    | none => exact Iff.rfl
    | some p => cases p <;> exact Iff.rfl
  | none =>
    rw [hn] at hreturns
    obtain ⟨ps, hps⟩ := returns_bind_ok.mp hreturns
    have hcalls : (m.toolCalls.map functionCall).filter isCall = m.toolCalls.map functionCall := by
      apply List.filter_eq_self.mpr
      intro p hp
      obtain ⟨call, _, rfl⟩ := List.mem_map.mp hp
      exact isCall_functionCall call
    have hcontents : ps.filter isCall = [] ↔ ∀ c ∈ m.contents, ¬ carriesCall c := by
      have hpart : ∀ c p, part c = .ok p → (¬ carriesCall c ↔ ¬ isCall p = true) := by
        intro c p h
        rw [isCall_part h]
      rw [List.filter_eq_nil_iff]
      exact (History.forall_iff_of_forall₂ hpart (mapM_eq_ok hps)).symm
    dsimp only
    rw [hps]
    show List.Forall₂ Matches ((ps ++ m.toolCalls.map functionCall).filter isCall) answers ↔ _
    rw [List.filter_append, hcalls, History.forall₂_append_iff (by rw [List.length_map]; exact hanswered.length_eq),
      hcontents, List.forall₂_map_left_iff,
      History.forall₂_iff_of_forall₂ (fun call answer h => matches_functionCall h) hanswered]

theorem history_left {before after : List Message} (h : Returns ((before ++ after).foldlM (appendHistory json) [])) :
    Returns (before.foldlM (appendHistory json) []) := by
  rw [List.foldlM_append, returns_bind] at h
  obtain ⟨contents, hc, _⟩ := h
  exact ⟨contents, hc⟩

theorem turnOf_returns {messages : List Message} (h : Returns (messages.foldlM (appendHistory json) [])) :
    ∀ m ∈ messages, Returns (turnOf json m) := by
  have htraced : Returns (messages.foldlM (Turns.trace (turnOf json)) []) := by
    obtain ⟨contents, hc⟩ := h
    rw [history_eq] at hc
    cases ht : tracedTurns json messages with
    | error e => rw [ht] at hc; cases hc
    | ok turns => exact ⟨turns, ht⟩
  exact (foldlM_returns Turns.trace_returns messages []).mp htraced

theorem correlatedAt_iff {before : List Message} {m : Message} {answers : List Message} (hrole : m.role = .assistant)
    (hanswered : List.Forall₂ AnsweredBy m.toolCalls answers)
    (hreturns : Returns ((before ++ m :: answers).foldlM (appendHistory json) [])) :
    CorrelatedAt json before m answers ↔ Supplied m answers := by
  have hsplit : before ++ m :: answers = (before ++ [m]) ++ answers := by simp
  obtain ⟨hm, hanswers⟩ := List.forall_mem_cons.mp (List.forall_mem_append.mp (turnOf_returns hreturns)).2
  obtain ⟨contents₂, h₂⟩ := hreturns
  obtain ⟨contents₁, h₁⟩ := history_left (show Returns _ from ⟨contents₂, by rw [← hsplit]; exact h₂⟩)
  obtain ⟨contents, h₀⟩ := history_left (show Returns _ from ⟨contents₁, h₁⟩)
  have htools : ∀ a ∈ answers, a.role = .tool ∧ Returns (turnOf json a) := by
    intro a ha
    exact ⟨(History.forall_iff_of_forall₂ (P := fun _ : ToolCall => True) (Q := fun a : Message => a.role = .tool)
      (fun _ _ h => ⟨fun _ => h.1, fun _ => trivial⟩) hanswered).mp (fun _ _ => trivial) a ha, hanswers a ha⟩
  rw [← matches_iff_supplied hrole hanswered hm, ← correlate_answers htools]
  have hp₁ : partsOf contents₁ = partsOf contents ++ emitted json m := by
    rw [partsOf_history h₀, partsOf_history h₁]
    simp
  have hp₂ : partsOf contents₂ = partsOf contents₁ ++ answers.flatMap (emitted json) := by
    rw [partsOf_history h₁, partsOf_history h₂, hsplit]
    simp
  constructor
  · intro hcorrelated
    obtain ⟨added, responses, ha, hr, hforall⟩ := hcorrelated contents contents₁ contents₂ h₀ h₁ h₂
    rw [hp₁] at ha
    rw [hp₂] at hr
    rwa [List.append_cancel_left ha, List.append_cancel_left hr]
  · intro hforall contents' contents₁' contents₂' h₀' h₁' h₂'
    rw [h₀] at h₀'
    rw [h₁] at h₁'
    rw [h₂] at h₂'
    cases h₀'
    cases h₁'
    cases h₂'
    exact ⟨_, _, hp₁, hp₂, hforall⟩

/-- **Calls and results correlate on the wire exactly when the transcript supplies the ids**: every assistant message
and its answers meet the condition, whatever the rest of the transcript is. -/
theorem correlated_iff {transcript : List Message} {contents : List JsonValue}
    (hanswered : AnsweredInOrder transcript)
    (hcontents : transcript.foldlM (appendHistory json) [] = .ok contents) :
    Correlated json transcript ↔ AllSupplied transcript := by
  have hat : ∀ before m answers after, transcript = before ++ m :: (answers ++ after) → m.role = .assistant →
      answers.length = m.toolCalls.length → (CorrelatedAt json before m answers ↔ Supplied m answers) := by
    intro before m answers after heq hrole hlen
    obtain ⟨answers', after', hrest, hforall⟩ := hanswered before m (answers ++ after) heq hrole
    obtain ⟨rfl, rfl⟩ := List.append_inj hrest (hlen.trans hforall.length_eq)
    have hall : Returns (((before ++ m :: answers) ++ after).foldlM (appendHistory json) []) := by
      rw [List.append_assoc, List.cons_append, ← heq]
      exact ⟨contents, hcontents⟩
    exact correlatedAt_iff hrole hforall (history_left hall)
  constructor
  · intro h before m answers after heq hrole hlen
    exact (hat before m answers after heq hrole hlen).mp (h before m answers after heq hrole hlen)
  · intro h before m answers after heq hrole hlen
    exact (hat before m answers after heq hrole hlen).mpr (h before m answers after heq hrole hlen)

def foreignItem : JsonValue :=
  .ofMembers [("type", .string "function_call"), ("call_id", .string "c1"), ("name", .string "weather"),
    ("arguments", .string "\x7b\x7d")]

def foreignCall : ToolCall := { id := "c1", name := "weather", providerMetadata := foreignItem }

def foreignMessage : Message :=
  (Message.assistant [] [foreignCall]).setProviderMetadata (nativeMetadata "openai" "output" (.array [foreignItem]))

def foreignAnswer : Message :=
  { role := .tool, contents := [.text "sunny"], toolCallId := "c1", toolName := "weather",
    providerMetadata := foreignItem, valid := by decide }

def foreignTranscript : List Message := [.userText "hello"] ++ [foreignMessage, foreignAnswer]

theorem foreignTranscript_answered : AnsweredInOrder foreignTranscript := by
  apply AnsweredInOrder.append
  · apply answeredInOrder_of_ne
    intro m hm
    rw [List.mem_singleton.mp hm]
    decide
  · apply answeredInOrder_block (.cons ⟨rfl, rfl, rfl⟩ .nil)
    intro m hm
    rw [List.mem_singleton.mp hm]
    decide

/-- A call that another provider's client recorded goes out with its id, and its result without. -/
theorem foreign_not_correlated :
    AnsweredInOrder foreignTranscript ∧
    Returns (foreignTranscript.foldlM (appendHistory (fixedText .null)) []) ∧
    ¬ Correlated (fixedText .null) foreignTranscript := by
  have hreturns : Returns (foreignTranscript.foldlM (appendHistory (fixedText .null)) []) := ⟨_, rfl⟩
  refine ⟨foreignTranscript_answered, hreturns, ?_⟩
  intro h
  have hat := h [.userText "hello"] foreignMessage [foreignAnswer] [] rfl rfl rfl
  obtain ⟨_, hcalls⟩ := (correlatedAt_iff rfl (.cons ⟨rfl, rfl, rfl⟩ .nil) hreturns).mp hat
  cases hcalls with
  | cons hmatch _ => exact absurd (show providerSuppliedId foreignAnswer = true from hmatch) (by decide)

def nativePart : JsonValue :=
  .ofMembers [("functionCall", .ofMembers [("id", .string "c1"), ("name", .string "weather")])]

def nativeTranscript : List Message :=
  [(Message.assistant [] [{ id := "c1", name := "weather", providerMetadata := nativePart }]).setProviderMetadata
      (nativeMetadata "gemini" "content" (.ofMembers [("parts", .array [nativePart])])),
    foreignAnswer.setProviderMetadata nativePart]

theorem nativeTranscript_answered : AnsweredInOrder nativeTranscript := by
  apply answeredInOrder_block (.cons ⟨rfl, rfl, rfl⟩ .nil)
  intro m hm
  rw [List.mem_singleton.mp hm]
  decide

theorem nativeTranscript_supplied : AllSupplied nativeTranscript := by
  intro before m answers after heq hrole hlen
  match before, heq with
  | [], heq =>
    obtain ⟨rfl, hrest⟩ := List.cons.inj heq
    obtain ⟨answer, rfl⟩ := List.length_eq_one_iff.mp hlen
    obtain ⟨rfl, _⟩ := List.cons.inj hrest
    exact .cons ⟨rfl, rfl⟩ .nil
  | [_], heq =>
    -- the other message is a tool's
    obtain ⟨rfl, _⟩ := List.cons.inj (List.cons.inj heq).2
    cases hrole
  | _ :: _ :: before, heq => simp [nativeTranscript] at heq

/-- The ids of Gemini's own calls come back. -/
theorem correlated_iff_native : Correlated (fixedText .null) nativeTranscript := by
  have hcontents : nativeTranscript.foldlM (appendHistory (fixedText .null)) [] = .ok _ := rfl
  exact (correlated_iff nativeTranscript_answered hcontents).mpr nativeTranscript_supplied

end GeminiClient

end NeuralPlus
