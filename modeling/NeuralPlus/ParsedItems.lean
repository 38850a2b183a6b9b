import NeuralPlus.Emission
import NeuralPlus.ReplaySound

/-!
# What each native item becomes

The loops of the Anthropic, Gemini and OpenAI parsers as passes with two
outputs: for each item they accept, the contents and the call it adds.
-/

namespace NeuralPlus

open Fallible Emission

def Parsed.Adds (parsed parsed' : Parsed) (cs : List Content) (ks : List ToolCall) : Prop :=
  parsed'.contents = parsed.contents ++ cs ∧ parsed'.calls = parsed.calls ++ ks

theorem Parsed.adds_content (parsed : Parsed) (c : Content) : parsed.Adds (parsed.content c) [c] [] :=
  ⟨rfl, (List.append_nil _).symm⟩

theorem Parsed.adds_call (parsed : Parsed) (call : ToolCall) : parsed.Adds (parsed.call call) [] [call] :=
  ⟨(List.append_nil _).symm, rfl⟩

theorem foldlM_parsed {α : Type} {Emits : Nat → α → List Content → List ToolCall → Prop}
    {step : Parsed → α → Except Exc Parsed}
    (hstep : ∀ parsed x parsed', step parsed x = .ok parsed' →
      ∃ cs ks, Emits parsed.calls.length x cs ks ∧ parsed.Adds parsed' cs ks) {xs : List α} {parsed : Parsed}
    (h : xs.foldlM step {} = .ok parsed) : Emitted Emits 0 xs parsed.contents parsed.calls := by
  obtain ⟨cs, ks, hemitted, hcontents, hcalls⟩ := foldlM_emitted Parsed.contents Parsed.calls hstep h
  rw [hcontents, hcalls]
  exact hemitted

/-! ## Anthropic blocks -/

namespace AnthropicClient

def isToolUse (block : JsonValue) : Bool := block.stringField "type" = "tool_use"

def BlockContent (block : JsonValue) (c : Content) : Prop :=
  if block.stringField "type" = "text" then ∃ text, block.find? "text" = some (.string text) ∧ c = .text text
  else Content.extension "anthropic" block = .ok c

def toolUse (json : JsonText) (block : JsonValue) : ToolCall :=
  { id := block.stringField "id", name := block.stringField "name", arguments := block.member "input"
    rawArguments := json.dump (block.member "input"), argumentsValid := true, providerMetadata := block }

structure CheckedToolUse (block : JsonValue) : Prop where
  id : block.stringField "id" ≠ ""
  name : block.stringField "name" ≠ ""
  input : (block.member "input").isObject = true

theorem parseToolUse_ok {json : JsonText} {malformed : String → Exc} {parsed parsed' : Parsed} {block : JsonValue}
    (h : parseToolUse json malformed parsed block = .ok parsed') :
    CheckedToolUse block ∧ parsed' = parsed.call (toolUse json block) := by
  unfold parseToolUse at h
  dsimp only at h
  split at h
  · next id name input hid hname hinput =>
    simp only [bind_eq_ok, throwIf_eq_ok, pure_eq_ok, Except.ok.injEq, not_or] at h
    obtain ⟨_, ⟨hidne, hnamene⟩, rfl⟩ := h
    have hid := JsonValue.stringField_eq hid
    have hname := JsonValue.stringField_eq hname
    have hinput := JsonValue.member_eq hinput
    unfold toolUse
    rw [hid, hname, hinput]
    exact ⟨⟨by rwa [hid], by rwa [hname], by rw [hinput]; rfl⟩, rfl⟩
  · cases h

/-- What a block adds, with the checks it has passed. -/
def BlockEmits (json : JsonText) (n : Nat) (block : JsonValue) (cs : List Content) (ks : List ToolCall) : Prop :=
  (isToolUse block = true → CheckedToolUse block) ∧
    OneEach isToolUse BlockContent (fun _ => toolUse json) n block cs ks

theorem parseBlock_emits {json : JsonText} {malformed : String → Exc} {parsed parsed' : Parsed} {block : JsonValue}
    (h : parseBlock json malformed parsed block = .ok parsed') :
    ∃ cs ks, BlockEmits json parsed.calls.length block cs ks ∧ parsed.Adds parsed' cs ks := by
  unfold parseBlock at h
  simp only [bind_eq_ok] at h
  obtain ⟨_, _, _, _, h⟩ := h
  by_cases htext : block.stringField "type" = "text"
  · rw [if_pos htext] at h
    simp only [bind_eq_ok, pure_eq_ok, Except.ok.injEq] at h
    obtain ⟨text, hfind, rfl⟩ := h
    have huse : isToolUse block = false := by simp [isToolUse, htext]
    have hc : BlockContent block (.text text) := by
      unfold BlockContent
      rw [if_pos htext]
      exact ⟨text, requireString_ok hfind, rfl⟩
    exact ⟨_, _, ⟨fun hyes => by simp [huse] at hyes, oneEach_image huse hc⟩, parsed.adds_content _⟩
  rw [if_neg htext] at h
  by_cases huse : block.stringField "type" = "tool_use"
  · rw [if_pos huse] at h
    obtain ⟨hchecked, rfl⟩ := parseToolUse_ok h
    have huse : isToolUse block = true := by simp [isToolUse, huse]
    exact ⟨_, _, ⟨fun _ => hchecked, oneEach_call huse⟩, parsed.adds_call _⟩
  · rw [if_neg huse] at h
    simp only [bind_eq_ok, pure_eq_ok, Except.ok.injEq] at h
    obtain ⟨c, hc, rfl⟩ := h
    have huse : isToolUse block = false := by simp [isToolUse, huse]
    have hc : BlockContent block c := by
      unfold BlockContent
      rw [if_neg htext]
      exact hc
    exact ⟨_, _, ⟨fun hyes => by simp [huse] at hyes, oneEach_image huse hc⟩, parsed.adds_content c⟩

theorem parseResponse_items {json : JsonText} {response : HttpResponse} {r : AIResponse}
    (h : parseResponse json response = .ok r) :
    ∃ body content, json.parse response.body = some body ∧ body.find? "content" = some (.array content) ∧
      Emitted (BlockEmits json) 0 content r.message.contents r.message.toolCalls := by
  unfold parseResponse at h
  simp only [bind_eq_ok, Prod.exists] at h
  obtain ⟨body, requestId, hbody, content, hcontent, parsed, hparsed, usage, _, h⟩ := h
  have hemitted := foldlM_parsed (fun _ _ _ => parseBlock_emits) hparsed
  rw [← Except.ok.inj h]
  exact ⟨body, content, (responseBody_ok hbody).1, requireArray_ok hcontent, hemitted⟩

end AnthropicClient

/-! ## Gemini parts -/

namespace GeminiClient

def isCallPart (part : JsonValue) : Bool := part.contains "functionCall" && !part.contains "text"

inductive PartContent (part : JsonValue) (c : Content) : Prop
  | thought (text : String) : part.find? "text" = some (.string text) → part.find? "thought" = some (.boolean true) →
      Content.extension "gemini" part = .ok c → PartContent part c
  | text (text : String) : part.find? "text" = some (.string text) → part.find? "thought" ≠ some (.boolean true) →
      c = .text text → PartContent part c
  | inlineData (data : JsonValue) (bytes : List UInt8) : part.find? "text" = none →
      part.find? "inlineData" = some data → base64Decode (data.stringField "data") = some bytes →
      Content.ofBytes (mediaKind (data.stringField "mimeType")) bytes (data.stringField "mimeType")
        (mediaName data (mediaKind (data.stringField "mimeType"))) .emptyObject = .ok c → PartContent part c
  | fileData (data : JsonValue) : part.find? "text" = none → part.find? "inlineData" = none →
      part.find? "fileData" = some data →
      Content.ofUrl (mediaKind (data.stringField "mimeType")) (data.stringField "fileUri") (data.stringField "mimeType")
        (mediaName data (mediaKind (data.stringField "mimeType"))) .emptyObject = .ok c → PartContent part c
  | native : (∀ key ∈ ["text", "inlineData", "fileData", "functionCall"], part.find? key = none) →
      Content.extension "gemini" part = .ok c → PartContent part c

def nativeCall (json : JsonText) (request : AIRequest) (callIndex : Nat) (part : JsonValue) : ToolCall :=
  parseFunctionCall json request callIndex part (part.member "functionCall")

structure CheckedCall (call : JsonValue) : Prop where
  name : call.stringField "name" ≠ ""
  args : ((call.find? "args").getD .emptyObject).isObject = true

theorem checkFunctionCall_ok {malformed : String → Exc} {part call : JsonValue}
    (h : checkFunctionCall malformed part = .ok ()) (hcall : part.find? "functionCall" = some call) :
    CheckedCall call := by
  unfold checkFunctionCall at h
  rw [hcall] at h
  simp only [bind_eq_ok, throwIf_eq_ok] at h
  obtain ⟨_, _, _, _, name, hname, _, hne, hargs⟩ := h
  refine ⟨?_, ?_⟩
  · rw [JsonValue.stringField_eq (requireString_ok hname)]
    exact hne
  · cases hfind : call.find? "args" with
    | none => rfl
    | some args => exact checkMember_ok hargs hfind

/-- What a part that passes its checks is: its payload fields exclude one another. -/
structure CheckedPart (part : JsonValue) : Prop where
  object : part.isObject = true
  text : ∀ text, part.find? "text" = some text → text.isString = true
  call : ∀ call, part.find? "functionCall" = some call → CheckedCall call
  payload : (payloadFields.filter part.contains).length ≤ 1

theorem checkPart_ok {malformed : String → Exc} {part : JsonValue} (h : checkPart malformed part = .ok ()) :
    CheckedPart part := by
  unfold checkPart at h
  simp only [bind_eq_ok, throwIf_eq_ok] at h
  obtain ⟨_, hobject, _, htext, _, _, _, _, _, _, _, _, _, hcall, hone⟩ := h
  refine ⟨by simpa using hobject, ?_, ?_, by omega⟩
  · intro text hfind
    exact checkMember_ok htext hfind
  · intro call hfind
    exact checkFunctionCall_ok hcall hfind

theorem CheckedPart.exclusive {part : JsonValue} (h : CheckedPart part) {a b : String}
    (hsub : [a, b].Sublist payloadFields) {v : JsonValue} (ha : part.find? a = some v) : part.find? b = none := by
  have ha : part.contains a = true := by
    unfold JsonValue.contains
    rw [ha]
    rfl
  by_contra hb
  have hb : part.contains b = true := Option.isSome_iff_ne_none.mpr hb
  have htwo := (hsub.filter fun key => part.contains key).length_le
  have hone := h.payload
  simp only [List.filter_cons, ha, hb, if_true, List.filter_nil, List.length_cons, List.length_nil] at htwo
  omega

theorem parseInlineData_ok {malformedData : Exc} {data : JsonValue} {c : Content}
    (h : parseInlineData malformedData data = .ok c) :
    ∃ bytes, base64Decode (data.stringField "data") = some bytes ∧
      Content.ofBytes (mediaKind (data.stringField "mimeType")) bytes (data.stringField "mimeType")
        (mediaName data (mediaKind (data.stringField "mimeType"))) .emptyObject = .ok c := by
  unfold parseInlineData at h
  dsimp only at h
  split at h
  · cases h
  · cases h
  · next bytes _ hbytes =>
    by_cases hempty : data.stringField "mimeType" = ""
    · rw [if_pos hempty] at h
      cases h
    · rw [if_neg hempty] at h
      exact ⟨bytes, hbytes, h⟩

theorem parseFileData_ok {malformedFile : Exc} {data : JsonValue} {c : Content}
    (h : parseFileData malformedFile data = .ok c) :
    Content.ofUrl (mediaKind (data.stringField "mimeType")) (data.stringField "fileUri") (data.stringField "mimeType")
      (mediaName data (mediaKind (data.stringField "mimeType"))) .emptyObject = .ok c := by
  unfold parseFileData at h
  dsimp only at h
  by_cases hempty : data.stringField "fileUri" = ""
  · rw [if_pos hempty] at h
    cases h
  · rw [if_neg hempty] at h
    exact h

def PartEmits (json : JsonText) (request : AIRequest) (n : Nat) (part : JsonValue) (cs : List Content)
    (ks : List ToolCall) : Prop :=
  (isCallPart part = true → CheckedCall (part.member "functionCall")) ∧
    OneEach isCallPart PartContent (nativeCall json request) n part cs ks

section
variable {json : JsonText} {request : AIRequest} {n : Nat} {part : JsonValue}

theorem partEmits_content {c : Content} (hcall : isCallPart part = false) (hc : PartContent part c) :
    PartEmits json request n part [c] [] :=
  ⟨fun hyes => by simp [hcall] at hyes, oneEach_image hcall hc⟩

theorem isCallPart_of_text {text : JsonValue} (h : part.find? "text" = some text) : isCallPart part = false := by
  unfold isCallPart JsonValue.contains
  rw [h]
  simp

theorem isCallPart_of_none (h : part.find? "functionCall" = none) : isCallPart part = false := by
  unfold isCallPart JsonValue.contains
  rw [h]
  rfl

theorem parsePart_emits {malformed : String → Exc} {malformedData malformedFile : Exc} {parsed parsed' : Parsed}
    (h : parsePart json request malformed malformedData malformedFile parsed part = .ok parsed') :
    ∃ cs ks, PartEmits json request parsed.calls.length part cs ks ∧ parsed.Adds parsed' cs ks := by
  unfold parsePart at h
  simp only [bind_eq_ok] at h
  obtain ⟨_, hcheck, h⟩ := h
  have hcheck := checkPart_ok hcheck
  cases htext : part.find? "text" with
  | some text =>
    simp only [htext] at h
    have hstring := hcheck.text text htext
    cases text with
    | string text =>
      by_cases hthought : part.find? "thought" = some (.boolean true)
      · rw [if_pos hthought] at h
        simp only [bind_eq_ok, pure_eq_ok, Except.ok.injEq] at h
        obtain ⟨c, hc, rfl⟩ := h
        exact ⟨_, _, partEmits_content (isCallPart_of_text htext) (.thought text htext hthought hc), parsed.adds_content c⟩
      · rw [if_neg hthought] at h
        rw [← Except.ok.inj h]
        exact ⟨_, _, partEmits_content (isCallPart_of_text htext) (.text text htext hthought rfl), parsed.adds_content _⟩
    | _ => cases hstring
  | none =>
    cases hinline : part.find? "inlineData" with
    | some data =>
      simp only [htext, hinline, bind_eq_ok, pure_eq_ok, Except.ok.injEq] at h
      obtain ⟨c, hc, rfl⟩ := h
      obtain ⟨bytes, hbytes, hc⟩ := parseInlineData_ok hc
      -- a part has one payload, so this one is no call
      have hcall := hcheck.exclusive (b := "functionCall") (by decide) hinline
      exact ⟨_, _, partEmits_content (isCallPart_of_none hcall) (.inlineData data bytes htext hinline hbytes hc),
        parsed.adds_content c⟩
    | none =>
      cases hfile : part.find? "fileData" with
      | some data =>
        simp only [htext, hinline, hfile, bind_eq_ok, pure_eq_ok, Except.ok.injEq] at h
        obtain ⟨c, hc, rfl⟩ := h
        have hc := parseFileData_ok hc
        have hcall := hcheck.exclusive (b := "functionCall") (by decide) hfile
        exact ⟨_, _, partEmits_content (isCallPart_of_none hcall) (.fileData data htext hinline hfile hc),
          parsed.adds_content c⟩
      | none =>
        cases hfunction : part.find? "functionCall" with
        | some call =>
          simp only [htext, hinline, hfile, hfunction] at h
          have hmember := JsonValue.member_eq hfunction
          have hcall : isCallPart part = true := by
            unfold isCallPart JsonValue.contains
            rw [htext, hfunction]
            rfl
          rw [← Except.ok.inj h]
          refine ⟨_, _, ⟨fun _ => ?_, oneEach_call hcall⟩, ?_⟩
          · rw [hmember]
            exact hcheck.call call hfunction
          · unfold nativeCall
            rw [hmember]
            exact parsed.adds_call _
        | none =>
          simp only [htext, hinline, hfile, hfunction, bind_eq_ok, pure_eq_ok, Except.ok.injEq] at h
          obtain ⟨c, hc, rfl⟩ := h
          have hnone : ∀ key ∈ ["text", "inlineData", "fileData", "functionCall"], part.find? key = none := by
            simp [htext, hinline, hfile, hfunction]
          exact ⟨_, _, partEmits_content (isCallPart_of_none hfunction) (.native hnone hc), parsed.adds_content c⟩

theorem parseParts_ok {malformed : String → Exc} {content : JsonValue} {needsParts : Bool} {parts : List JsonValue}
    (h : parseParts malformed content needsParts = .ok parts) : arrayMember content "parts" = parts := by
  unfold parseParts at h
  split at h
  · next parts' hparts =>
    rw [arrayMember_eq hparts]
    exact Except.ok.inj h
  · cases h
  · next hparts =>
    cases hneeds : needsParts with
    | true =>
      rw [hneeds] at h
      cases h
    | false =>
      rw [hneeds] at h
      unfold arrayMember
      rw [JsonValue.member_of_none hparts, ← Except.ok.inj h]
      rfl

theorem parseResponse_items {response : HttpResponse} {r : AIResponse} (h : parseResponse json request response = .ok r) :
    ∃ body, json.parse response.body = some body ∧
      Emitted (PartEmits json request) 0 (arrayMember (candidateContent body) "parts") r.message.contents
        r.message.toolCalls := by
  unfold parseResponse at h
  simp only [bind_eq_ok, Prod.exists] at h
  obtain ⟨body, requestId, hbody, candidate, hcandidate, content, hcontent, parts, hparts, parsed, hparsed, h⟩ := h
  have hemitted := foldlM_parsed (fun _ _ _ => parsePart_emits) hparsed
  rw [← parseParts_ok hparts, (parseContent_ok hcontent).1, parseCandidate_ok hcandidate] at hemitted
  rw [← Except.ok.inj h]
  exact ⟨body, (responseBody_ok hbody).1, hemitted⟩

end

end GeminiClient

/-! ## OpenAI output items -/

namespace OpenAIClient

def PartContent (part : JsonValue) (c : Content) : Prop :=
  if part.stringField "type" = "output_text" then ∃ text, part.find? "text" = some (.string text) ∧ c = .text text
  else if part.stringField "type" = "refusal" then
    ∃ refusal, part.find? "refusal" = some (.string refusal) ∧ c = .text refusal
  else Content.extension "openai" part = .ok c

def ImageContent (item : JsonValue) (c : Content) : Prop :=
  ∃ encoded bytes, item.find? "result" = some (.string encoded) ∧ base64Decode encoded = some bytes ∧
    Content.imageBytes bytes (imageMediaType bytes) = .ok c

def nativeCall (json : JsonText) (item : JsonValue) : ToolCall :=
  let rawArguments := item.stringField "arguments"
  { id := item.stringField "call_id", name := item.stringField "name"
    arguments := (parseToolArguments json rawArguments).1, rawArguments
    argumentsValid := (parseToolArguments json rawArguments).2, providerMetadata := item }

def itemTypes : List String := ["message", "image_generation_call", "function_call"]

/-- What an item adds, given what items of other types add. -/
inductive ItemEmits (json : JsonText) (Other : JsonValue → List Content → Prop) (n : Nat) (item : JsonValue) :
    List Content → List ToolCall → Prop
  | message {parts : List JsonValue} {cs : List Content} : item.stringField "type" = "message" →
      item.find? "content" = some (.array parts) → List.Forall₂ PartContent parts cs → ItemEmits json Other n item cs []
  | image {c : Content} : item.stringField "type" = "image_generation_call" → ImageContent item c →
      ItemEmits json Other n item [c] []
  | call : item.stringField "type" = "function_call" → item.stringField "call_id" ≠ "" → item.stringField "name" ≠ "" →
      ItemEmits json Other n item [] [nativeCall json item]
  | other {cs : List Content} : item.stringField "type" ∉ itemTypes → Other item cs → ItemEmits json Other n item cs []

section
variable {json : JsonText} {malformed : String → Exc} {malformedImage : Exc} {parsed parsed' : Parsed}

theorem parsePart_emits {part : JsonValue} (h : parsePart malformed parsed part = .ok parsed') :
    ∃ c, PartContent part c ∧ parsed.Adds parsed' [c] [] := by
  unfold parsePart at h
  simp only [bind_eq_ok] at h
  obtain ⟨_, _, _, _, h⟩ := h
  unfold PartContent
  by_cases htext : part.stringField "type" = "output_text"
  · rw [if_pos htext] at h
    simp only [bind_eq_ok, pure_eq_ok, Except.ok.injEq] at h
    obtain ⟨text, hfind, rfl⟩ := h
    refine ⟨_, ?_, parsed.adds_content _⟩
    rw [if_pos htext]
    exact ⟨text, requireString_ok hfind, rfl⟩
  rw [if_neg htext] at h
  by_cases hrefusal : part.stringField "type" = "refusal"
  · rw [if_pos hrefusal] at h
    simp only [bind_eq_ok, pure_eq_ok, Except.ok.injEq] at h
    obtain ⟨refusal, hfind, rfl⟩ := h
    refine ⟨_, ?_, parsed.adds_content _⟩
    rw [if_neg htext, if_pos hrefusal]
    exact ⟨refusal, requireString_ok hfind, rfl⟩
  · rw [if_neg hrefusal] at h
    simp only [bind_eq_ok, pure_eq_ok, Except.ok.injEq] at h
    obtain ⟨c, hc, rfl⟩ := h
    refine ⟨c, ?_, parsed.adds_content c⟩
    rw [if_neg htext, if_neg hrefusal]
    exact hc

theorem parseParts_emits {parts : List JsonValue} (h : parts.foldlM (parsePart malformed) parsed = .ok parsed') :
    ∃ cs, List.Forall₂ PartContent parts cs ∧ parsed.Adds parsed' cs [] := by
  have hstep : ∀ parsed part parsed', parsePart malformed parsed part = .ok parsed' →
      ∃ cs ks, OneEach (fun _ => false) PartContent (fun _ _ => (default : ToolCall)) parsed.calls.length part cs ks ∧
        parsed.Adds parsed' cs ks := by
    intro parsed part parsed' h
    obtain ⟨c, hc, hadds⟩ := parsePart_emits h
    exact ⟨_, _, oneEach_image rfl hc, hadds⟩
  obtain ⟨cs, ks, hemitted, hadds⟩ := foldlM_emitted Parsed.contents Parsed.calls hstep h
  obtain ⟨himages, hcalls⟩ := hemitted.images
  rw [List.filter_eq_self.mpr (by simp)] at himages
  rw [List.filter_eq_nil_iff.mpr (by simp)] at hcalls
  rw [hcalls] at hadds
  exact ⟨cs, himages, hadds⟩

theorem parseImage_emits {item : JsonValue} (h : parseImage malformed malformedImage parsed item = .ok parsed') :
    ∃ c, ImageContent item c ∧ parsed.Adds parsed' [c] [] := by
  unfold parseImage at h
  simp only [bind_eq_ok] at h
  obtain ⟨encoded, hencoded, h⟩ := h
  split at h
  · cases h
  · cases h
  · next bytes _ hbytes =>
    simp only [bind_eq_ok, pure_eq_ok, Except.ok.injEq] at h
    obtain ⟨c, hc, rfl⟩ := h
    exact ⟨c, ⟨encoded, bytes, requireString_ok hencoded, hbytes, hc⟩, parsed.adds_content c⟩

theorem parseFunctionCall_ok {item : JsonValue} (h : parseFunctionCall json malformed parsed item = .ok parsed') :
    item.stringField "call_id" ≠ "" ∧ item.stringField "name" ≠ "" ∧ parsed' = parsed.call (nativeCall json item) := by
  unfold parseFunctionCall at h
  dsimp only at h
  split at h
  · next id name rawArguments hid hname hraw =>
    simp only [bind_eq_ok, throwIf_eq_ok, pure_eq_ok, Except.ok.injEq, not_or] at h
    obtain ⟨_, ⟨hidne, hnamene⟩, _, _, rfl⟩ := h
    unfold nativeCall
    rw [JsonValue.stringField_eq hid, JsonValue.stringField_eq hname, JsonValue.stringField_eq hraw]
    exact ⟨hidne, hnamene, rfl⟩
  · cases h

theorem parseItem_emits {item : JsonValue} (h : parseItem json malformed malformedImage parsed item = .ok parsed') :
    ∃ cs ks, ItemEmits json (fun _ cs => cs = []) parsed.calls.length item cs ks ∧ parsed.Adds parsed' cs ks := by
  unfold parseItem at h
  simp only [bind_eq_ok] at h
  obtain ⟨_, _, _, _, h⟩ := h
  by_cases hmessage : item.stringField "type" = "message"
  · rw [if_pos hmessage, bind_eq_ok] at h
    obtain ⟨parts, hparts, h⟩ := h
    obtain ⟨cs, hcs, hadds⟩ := parseParts_emits h
    exact ⟨cs, [], .message hmessage (requireArray_ok hparts) hcs, hadds⟩
  rw [if_neg hmessage] at h
  by_cases himage : item.stringField "type" = "image_generation_call"
  · rw [if_pos himage] at h
    obtain ⟨c, hc, hadds⟩ := parseImage_emits h
    exact ⟨[c], [], .image himage hc, hadds⟩
  rw [if_neg himage] at h
  by_cases hcall : item.stringField "type" = "function_call"
  · rw [if_pos hcall] at h
    obtain ⟨hid, hname, rfl⟩ := parseFunctionCall_ok h
    exact ⟨[], [nativeCall json item], .call hcall hid hname, parsed.adds_call _⟩
  · rw [if_neg hcall] at h
    rw [← Except.ok.inj h]
    refine ⟨[], [], .other ?_ rfl, (List.append_nil _).symm, (List.append_nil _).symm⟩
    simp [itemTypes, hmessage, himage, hcall]

theorem parseResponse_items {response : HttpResponse} {r : AIResponse} (h : parseResponse json response = .ok r) :
    ∃ body output cs, json.parse response.body = some body ∧ body.find? "output" = some (.array output) ∧
      Emitted (ItemEmits json fun _ cs => cs = []) 0 output cs r.message.toolCalls ∧
      r.message.contents = orError body cs := by
  unfold parseResponse at h
  simp only [bind_eq_ok, Prod.exists] at h
  obtain ⟨body, requestId, hbody, output, houtput, parsed, hparsed, h⟩ := h
  have hemitted := foldlM_parsed (fun _ _ _ => parseItem_emits) hparsed
  rw [← Except.ok.inj h]
  exact ⟨body, output, parsed.contents, (responseBody_ok hbody).1, requireArray_ok houtput, hemitted, rfl⟩

end

end OpenAIClient

end NeuralPlus
