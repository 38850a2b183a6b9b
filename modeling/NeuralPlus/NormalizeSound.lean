import NeuralPlus.ParsedItems

/-!
# What normalization keeps

An accepted Anthropic or Gemini response has one content or one call for each
native entry, in order. OpenAI output items of other types have neither.
-/

namespace NeuralPlus

open Fallible Emission

/-! ## Anthropic and Gemini -/

def textValue (c : Content) : Option String := if c.type = .text then some c.value else none

theorem Message.text_eq (m : Message) : m.text = String.join (m.contents.filterMap textValue) := by
  have hfold : ∀ (cs : List Content) (acc : String),
      cs.foldl (fun r c => if c.type = .text then r ++ c.value else r) acc =
        (cs.filterMap textValue).foldl (fun r s => r ++ s) acc := by
    intro cs
    induction cs with
    | nil => exact fun _ => rfl
    | cons c cs ih =>
      intro acc
      rw [List.foldl_cons, List.filterMap_cons, ih]
      unfold textValue
      by_cases htext : c.type = .text
      · rw [if_pos htext, if_pos htext]
        rfl
      · rw [if_neg htext, if_neg htext]
  exact hfold m.contents ""

def AnthropicClient.Normalizes (json : JsonText) (blocks : List JsonValue) (m : Message) : Prop :=
  List.Forall₂ BlockContent (blocks.filter fun block => !isToolUse block) m.contents ∧
    m.toolCalls = (blocks.filter isToolUse).map (toolUse json) ∧
    m.contents.length + m.toolCalls.length = blocks.length

namespace GeminiClient

def answerText (part : JsonValue) : Option String :=
  if part.find? "thought" = some (.boolean true) then none
  else (part.find? "text").bind fun text => text.getString.toOption

def Normalizes (json : JsonText) (request : AIRequest) (parts : List JsonValue) (m : Message) : Prop :=
  List.Forall₂ PartContent (parts.filter fun part => !isCallPart part) m.contents ∧
    m.toolCalls = (parts.filter isCallPart).zipIdx.map (fun part => nativeCall json request part.2 part.1) ∧
    m.contents.length + m.toolCalls.length = parts.length ∧ m.text = String.join (parts.filterMap answerText)

theorem answerText_of_none {part : JsonValue} (h : part.find? "text" = none) : answerText part = none := by
  unfold answerText
  rw [h]
  simp

theorem PartContent.textValue {part : JsonValue} {c : Content} (h : PartContent part c) :
    textValue c = answerText part := by
  have hother : c.type ≠ .text → part.find? "text" = none → NeuralPlus.textValue c = answerText part := by
    intro htype htext
    unfold NeuralPlus.textValue
    rw [if_neg htype, answerText_of_none htext]
  cases h with
  | thought text htext hthought hc =>
    unfold NeuralPlus.textValue answerText
    rw [(Content.extension_ok hc).1, if_neg (by decide), if_pos hthought]
  | text text htext hthought hc =>
    unfold NeuralPlus.textValue answerText
    rw [hc, if_neg hthought, htext]
    rfl
  | inlineData data bytes htext _ _ hc =>
    apply hother _ htext
    rw [(Content.ofBytes_ok hc).1]
    exact Content.media_ne_text _
  | fileData data htext _ _ hc =>
    apply hother _ htext
    rw [(Content.ofUrl_ok hc).1]
    exact Content.media_ne_text _
  | native hnone hc =>
    apply hother _ (hnone "text" (by simp))
    rw [(Content.extension_ok hc).1]
    decide

theorem text_of_images {parts : List JsonValue} {contents : List Content}
    (h : List.Forall₂ PartContent (parts.filter fun part => !isCallPart part) contents) :
    contents.filterMap textValue = parts.filterMap answerText := by
  have himages : ∀ {parts : List JsonValue} {contents : List Content}, List.Forall₂ PartContent parts contents →
      contents.filterMap textValue = parts.filterMap answerText := by
    intro parts contents h
    induction h with
    | nil => rfl
    | cons hc _ ih => rw [List.filterMap_cons, List.filterMap_cons, hc.textValue, ih]
  rw [himages h, List.filterMap_filter]
  apply List.filterMap_congr
  intro part _
  cases hcall : isCallPart part with
  | false => rfl
  | true =>
    unfold isCallPart JsonValue.contains at hcall
    have htext : part.find? "text" = none := by simpa using (Bool.and_eq_true_iff.mp hcall).2
    rw [answerText_of_none htext]
    rfl

end GeminiClient

/-- Each native entry of an accepted response is one call or one content, in order. -/
theorem responses_normalize (json : JsonText) (request : AIRequest) (response : HttpResponse) :
    (∀ r, AnthropicClient.parseResponse json response = .ok r →
      ∃ body blocks, json.parse response.body = some body ∧ body.find? "content" = some (.array blocks) ∧
        AnthropicClient.Normalizes json blocks r.message) ∧
    ∀ r, GeminiClient.parseResponse json request response = .ok r →
      ∃ body, json.parse response.body = some body ∧
        GeminiClient.Normalizes json request (arrayMember (GeminiClient.candidateContent body) "parts") r.message := by
  constructor
  · intro r h
    obtain ⟨body, blocks, hbody, hblocks, hemitted⟩ := AnthropicClient.parseResponse_items h
    have hone := hemitted.mono fun _ _ _ _ _ h => h.2
    obtain ⟨hcontents, hcalls⟩ := hone.images
    refine ⟨body, blocks, hbody, hblocks, hcontents, ?_, hone.length_images⟩
    have hfirst := List.zipIdx_map_fst 0 (blocks.filter AnthropicClient.isToolUse)
    rw [hcalls, ← hfirst, List.map_map, hfirst]
    rfl
  · intro r h
    obtain ⟨body, hbody, hemitted⟩ := GeminiClient.parseResponse_items h
    have hone := hemitted.mono fun _ _ _ _ _ h => h.2
    obtain ⟨hcontents, hcalls⟩ := hone.images
    refine ⟨body, hbody, hcontents, hcalls, hone.length_images, ?_⟩
    rw [Message.text_eq, GeminiClient.text_of_images hcontents]

def mixedBlocks : List JsonValue :=
  [thinkingBlock, .ofMembers [("text", .string "hello"), ("type", .string "text")],
    .ofMembers [("id", .string "t1"), ("input", .emptyObject), ("name", .string "weather"), ("type", .string "tool_use")]]

def mixedBody : JsonValue := .ofMembers [("content", .array mixedBlocks), ("stop_reason", .string "tool_use")]

def mixedParts : List JsonValue :=
  [.ofMembers [("text", .string "hm"), ("thought", .boolean true)], helloPart,
    .ofMembers [("functionCall", .ofMembers [("args", .emptyObject), ("name", .string "weather")])],
    .ofMembers [("functionCall", .ofMembers [("args", .emptyObject), ("name", .string "time")])]]

theorem responses_normalize_mixed :
    (∃ r, AnthropicClient.parseResponse (fixedText mixedBody) { status := 200, body := "" } = .ok r ∧
      AnthropicClient.Normalizes (fixedText mixedBody) mixedBlocks r.message ∧ r.message.toolCalls.length = 1) ∧
    ∃ r, GeminiClient.parseResponse (fixedText (candidateBody "model" mixedParts)) sampleRequest
        { status := 200, body := "" } = .ok r ∧
      GeminiClient.Normalizes (fixedText (candidateBody "model" mixedParts)) sampleRequest mixedParts r.message ∧
      r.message.toolCalls.map ToolCall.id = ["gemini_call_run-1_0_0", "gemini_call_run-1_0_1"] ∧
      r.message.text = "hello" := by
  constructor
  · have h : AnthropicClient.parseResponse (fixedText mixedBody) { status := 200, body := "" } = .ok _ := rfl
    obtain ⟨body, blocks, hbody, hblocks, hnormal⟩ := (responses_normalize _ sampleRequest _).1 _ h
    obtain rfl := Option.some.inj hbody
    obtain rfl : mixedBlocks = blocks := JsonValue.array.inj (Option.some.inj hblocks)
    exact ⟨_, h, hnormal, rfl⟩
  · have h : GeminiClient.parseResponse (fixedText (candidateBody "model" mixedParts)) sampleRequest
        { status := 200, body := "" } = .ok _ := rfl
    obtain ⟨body, hbody, hnormal⟩ := (responses_normalize _ sampleRequest _).2 _ h
    obtain rfl := Option.some.inj hbody
    exact ⟨_, h, hnormal, by decide +kernel, by decide +kernel⟩

/-! ## OpenAI -/

namespace OpenAIClient

/-- Items of other types as the support table has them: extensions that hold the item. -/
def AsExtension (item : JsonValue) (cs : List Content) : Prop := ∃ c, Content.extension "openai" item = .ok c ∧ cs = [c]

/-- Every output item has its contents or its call, in order, and the contents are no others. -/
def Represents (json : JsonText) (output : List JsonValue) (m : Message) : Prop :=
  ∃ cs, Emitted (ItemEmits json AsExtension) 0 output cs m.toolCalls ∧ (cs ≠ [] → m.contents = cs)

def contentCount (item : JsonValue) : Nat :=
  if item.stringField "type" = "message" then (arrayMember item "content").length
  else if item.stringField "type" = "image_generation_call" then 1
  else 0

section
variable {json : JsonText} {Other : JsonValue → List Content → Prop} {n : Nat} {item : JsonValue} {cs : List Content}
  {ks : List ToolCall}

theorem ItemEmits.recognized (h : ItemEmits json Other n item cs ks) (htype : item.stringField "type" ∈ itemTypes) :
    cs.length = contentCount item := by
  unfold contentCount
  cases h with
  | message hmessage hparts hcs => rw [if_pos hmessage, arrayMember_eq hparts, hcs.length_eq]
  | image himage _ => simp [himage]
  | call hcall _ _ => simp [hcall]
  | other hother _ => exact absurd htype hother

theorem ItemEmits.unrecognized (h : ItemEmits json Other n item cs ks) (htype : item.stringField "type" ∉ itemTypes) :
    Other item cs := by
  cases h with
  | message hmessage _ _ => exact absurd (by simp [hmessage, itemTypes]) htype
  | image himage _ => exact absurd (by simp [himage, itemTypes]) htype
  | call hcall _ _ => exact absurd (by simp [hcall, itemTypes]) htype
  | other _ hcs => exact hcs

theorem ItemEmits.asExtension (h : ItemEmits json (fun _ cs => cs = []) n item cs ks)
    (htype : item.stringField "type" ∈ itemTypes) : ItemEmits json AsExtension n item cs ks := by
  cases h with
  | message hmessage hparts hcs => exact .message hmessage hparts hcs
  | image himage hc => exact .image himage hc
  | call hcall hid hname => exact .call hcall hid hname
  | other hother _ => exact absurd htype hother

theorem length_dropped {output : List JsonValue} {cs cs' : List Content} {ks ks' : List ToolCall}
    (h : Emitted (ItemEmits json fun _ cs => cs = []) 0 output cs ks)
    (h' : Emitted (ItemEmits json AsExtension) 0 output cs' ks') (hitem : item ∈ output)
    (htype : item.stringField "type" ∉ itemTypes) : cs.length < cs'.length := by
  have hone : ∀ {item : JsonValue} {n m : Nat} {cs cs' : List Content} {ks ks' : List ToolCall},
      item.stringField "type" ∉ itemTypes → ItemEmits json (fun _ cs => cs = []) n item cs ks →
        ItemEmits json AsExtension m item cs' ks' → cs.length < cs'.length := by
    intro item n m cs cs' ks ks' htype h h'
    obtain ⟨c, _, hc⟩ := h'.unrecognized htype
    rw [h.unrecognized htype, hc]
    exact Nat.zero_lt_one
  refine h.length_lt h' ?_ hitem fun _ _ _ _ _ _ => hone htype
  intro x n m cs ks cs' ks' h h'
  by_cases hx : x.stringField "type" ∈ itemTypes
  · rw [h.recognized hx, h'.recognized hx]
  · exact Nat.le_of_lt (hone hx h h')

end

/-- Every item is represented just when none has another type: those are dropped. -/
theorem represents_iff {json : JsonText} {response : HttpResponse} {r : AIResponse}
    (h : parseResponse json response = .ok r) :
    ∃ body output, json.parse response.body = some body ∧ body.find? "output" = some (.array output) ∧
      (Represents json output r.message ↔ ∀ item ∈ output, item.stringField "type" ∈ itemTypes) := by
  obtain ⟨body, output, cs, hbody, houtput, hemitted, hcontents⟩ := parseResponse_items h
  refine ⟨body, output, hbody, houtput, ?_⟩
  constructor
  · rintro ⟨cs', hemitted', hrepresented⟩ item hitem
    by_contra htype
    have hlt := length_dropped hemitted hemitted' hitem htype
    have hne : cs' ≠ [] := by
      intro hnil
      rw [hnil] at hlt
      exact absurd hlt (Nat.not_lt_zero _)
    have heq := hrepresented hne
    rw [hcontents] at heq
    unfold orError at heq
    by_cases hempty : cs = []
    · -- the contents are at most an error text, which is no extension
      rw [if_pos hempty] at heq
      obtain ⟨_, _, _, hitem', hsub⟩ := hemitted'.subset_left hitem
      obtain ⟨c, hc, hone⟩ := hitem'.unrecognized htype
      have hmem : c ∈ cs' := hsub (by rw [hone]; exact List.mem_singleton.mpr rfl)
      rw [← heq] at hmem
      unfold Message.textContents at hmem
      by_cases htext : (body.member "error").stringField "message" = ""
      · rw [if_pos htext] at hmem
        cases hmem
      · rw [if_neg htext] at hmem
        have htype := (Content.extension_ok hc).1
        rw [List.mem_singleton.mp hmem] at htype
        cases htype
    · rw [if_neg hempty] at heq
      rw [heq] at hlt
      exact Nat.lt_irrefl _ hlt
  · intro hall
    refine ⟨cs, hemitted.mono fun item hitem _ _ _ h => h.asExtension (hall item hitem), ?_⟩
    intro hne
    rw [hcontents]
    unfold orError
    rw [if_neg hne]

def reasoningItem : JsonValue := .ofMembers [("id", .string "rs_1"), ("type", .string "reasoning")]

def answerItem : JsonValue :=
  .ofMembers [("content", .array [.ofMembers [("text", .string "done"), ("type", .string "output_text")]]),
    ("type", .string "message")]

def reasoningBody : JsonValue := .ofMembers [("output", .array [reasoningItem, answerItem])]

/-- A reasoning item before an answer: the message has one content, the answer. -/
theorem reasoning_dropped :
    ∃ r, parseResponse (fixedText reasoningBody) { status := 200, body := "" } = .ok r ∧
      r.message.contents = [.text "done"] ∧ r.message.toolCalls = [] ∧
      ¬ Represents (fixedText reasoningBody) [reasoningItem, answerItem] r.message := by
  refine ⟨_, rfl, rfl, rfl, ?_⟩
  rintro ⟨cs, hemitted, hrepresented⟩
  obtain ⟨first, rest, _, hitem, rfl⟩ := hemitted.head
  obtain ⟨c, hc, rfl⟩ := hitem.unrecognized (by decide)
  have heq := hrepresented (by simp)
  have hfirst : c = .text "done" := (List.cons.inj heq).1.symm
  have htype := (Content.extension_ok hc).1
  rw [hfirst] at htype
  cases htype

theorem represents_iff_reasoning :
    ∃ r, parseResponse (fixedText reasoningBody) { status := 200, body := "" } = .ok r ∧
      ∃ body output, (fixedText reasoningBody).parse "" = some body ∧ body.find? "output" = some (.array output) ∧
        (Represents (fixedText reasoningBody) output r.message ↔
          ∀ item ∈ output, item.stringField "type" ∈ itemTypes) := by
  have h : parseResponse (fixedText reasoningBody) { status := 200, body := "" } = .ok _ := rfl
  exact ⟨_, h, represents_iff h⟩

end OpenAIClient

end NeuralPlus
