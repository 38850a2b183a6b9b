import NeuralPlus.JsonTree
import NeuralPlus.ParsedItems

/-!
# What a response takes from its body

Every string an accepted response hands on is a text of the parsed body, or of
a second parse: the OpenAI adapters decode tool arguments out of a string.
-/

namespace NeuralPlus

open Fallible Emission JsonValue

/-! ## Texts of the parts of a body -/

def Draws (part body : JsonValue) : Prop := ∀ t, Text t part → Text t body

def TextOf (body : JsonValue) (s : String) : Prop := s = "" ∨ Text s body

section
variable {part body v : JsonValue} {key s : String}

theorem Draws.refl (body : JsonValue) : Draws body body := fun _ h => h

theorem draws_null (body : JsonValue) : Draws .null body := by
  rintro t (h | ⟨m, w, h, _⟩)
  · cases h
  · cases h

theorem not_text_emptyObject (t : String) : ¬ Text t .emptyObject := by
  intro ht
  obtain ⟨p, hp, _⟩ := text_object.mp ht
  exact absurd hp List.not_mem_nil

theorem draws_emptyObject (body : JsonValue) : Draws .emptyObject body :=
  fun t ht => absurd ht (not_text_emptyObject t)

theorem Draws.find? (h : Draws part body) (hv : part.find? key = some v) : Draws v body :=
  fun t ht => h t (ht.mono (within_of_find? hv))

theorem Draws.getD {other : JsonValue} (h : Draws part body) (hother : Draws other body) (key : String) :
    Draws ((part.find? key).getD other) body := by
  cases hv : part.find? key with
  | none => exact hother
  | some v => exact h.find? hv

theorem Draws.member (h : Draws part body) (key : String) : Draws (part.member key) body :=
  h.getD (draws_null body) key

theorem Draws.element {xs : List JsonValue} {x : JsonValue} (h : Draws (.array xs) body) (hx : x ∈ xs) :
    Draws x body :=
  fun t ht => h t (text_array.mpr ⟨x, hx, ht⟩)

theorem Draws.of_mem {x : JsonValue} (h : Draws part body) (hx : x ∈ arrayMember part key) : Draws x body := by
  obtain ⟨xs, hfind, hmem⟩ := mem_arrayMember hx
  exact Draws.element (h.find? hfind) hmem

theorem Draws.textOf (h : Draws (.string s) body) : TextOf body s := .inr (h s (text_string.mpr rfl))

theorem Draws.stringField (h : Draws part body) (key : String) : TextOf body (part.stringField key) := by
  unfold JsonValue.stringField
  split
  · next s hs => exact (h.find? hs).textOf
  · exact .inl rfl

theorem Draws.requireString {e : Exc} (h : Draws part body) (hs : requireString part key e = .ok s) :
    TextOf body s :=
  (h.find? (requireString_ok hs)).textOf

end

/-! ## The values of contents -/

theorem textContents_value {body : JsonValue} {text : String} (h : TextOf body text) :
    ∀ c ∈ Message.textContents text, TextOf body c.value := by
  unfold Message.textContents
  by_cases ht : text = ""
  · rw [if_pos ht]
    exact fun c hc => absurd hc List.not_mem_nil
  · rw [if_neg ht]
    intro c hc
    rw [List.mem_singleton.mp hc]
    exact h

/-! ## Contents and calls -/

/-- The native part of a call; a legacy call's stands under the adapter's own names. -/
def NativeOf (body metadata : JsonValue) : Prop :=
  Draws metadata body ∨ ∃ function, Draws function body ∧
    metadata = .ofMembers [("legacy_function_call", .boolean true), ("function_call", function)]

/-- The contents and the calls come from the body, and the arguments that come from a second
parse are those of `raws`. -/
structure Drawn (json : JsonText) (body : JsonValue) (raws : List String) (contents : List Content)
    (calls : List ToolCall) : Prop where
  contents : ∀ c ∈ contents, TextOf body c.value
  native : ∀ call ∈ calls, NativeOf body call.providerMetadata
  decoded : ∀ call ∈ calls, Draws call.arguments body ∨
    ∃ raw ∈ raws, call.arguments = (parseToolArguments json raw).1
  reached : ∀ raw ∈ raws, ∃ call ∈ calls, call.arguments = (parseToolArguments json raw).1

section
variable {json : JsonText} {body : JsonValue} {raws raws' : List String} {contents contents' : List Content}
  {calls calls' : List ToolCall}

theorem Drawn.nil (json : JsonText) (body : JsonValue) : Drawn json body [] [] [] := by
  constructor <;> simp

theorem Drawn.append (h : Drawn json body raws contents calls) (h' : Drawn json body raws' contents' calls') :
    Drawn json body (raws ++ raws') (contents ++ contents') (calls ++ calls') := by
  constructor
  · intro c hc
    rcases List.mem_append.mp hc with hc | hc
    · exact h.contents c hc
    · exact h'.contents c hc
  · intro call hcall
    rcases List.mem_append.mp hcall with hcall | hcall
    · exact h.native call hcall
    · exact h'.native call hcall
  · intro call hcall
    rcases List.mem_append.mp hcall with hcall | hcall
    · apply (h.decoded call hcall).imp_right
      rintro ⟨raw, hraw, harguments⟩
      exact ⟨raw, List.mem_append_left _ hraw, harguments⟩
    · apply (h'.decoded call hcall).imp_right
      rintro ⟨raw, hraw, harguments⟩
      exact ⟨raw, List.mem_append_right _ hraw, harguments⟩
  · intro raw hraw
    rcases List.mem_append.mp hraw with hraw | hraw
    · obtain ⟨call, hcall, harguments⟩ := h.reached raw hraw
      exact ⟨call, List.mem_append_left _ hcall, harguments⟩
    · obtain ⟨call, hcall, harguments⟩ := h'.reached raw hraw
      exact ⟨call, List.mem_append_right _ hcall, harguments⟩

theorem Drawn.with_contents (h : Drawn json body raws contents calls) (hc : ∀ c ∈ contents', TextOf body c.value) :
    Drawn json body raws contents' calls :=
  ⟨hc, h.native, h.decoded, h.reached⟩

theorem Drawn.content {c : Content} (hc : TextOf body c.value) : Drawn json body [] [c] [] :=
  (Drawn.nil json body).with_contents (by simpa using hc)

theorem Drawn.call {call : ToolCall} (hn : Draws call.providerMetadata body) (ha : Draws call.arguments body) :
    Drawn json body [] [] [call] := by
  have hnative : NativeOf body call.providerMetadata := .inl hn
  constructor
  · simp
  · simpa using hnative
  · simpa using ha
  · simp

theorem Drawn.decode {call : ToolCall} {raw : String} (hn : NativeOf body call.providerMetadata)
    (ha : call.arguments = (parseToolArguments json raw).1) : Drawn json body [raw] [] [call] := by
  constructor
  · simp
  · simpa using hn
  · simp [ha]
  · simp [ha]

theorem Drawn.of_emitted {Emits : Nat → JsonValue → List Content → List ToolCall → Prop} {texts : JsonValue → List String}
    {n : Nat} {items : List JsonValue} (h : Emitted Emits n items contents calls)
    (hstep : ∀ item ∈ items, ∀ n cs ks, Emits n item cs ks → Drawn json body (texts item) cs ks) :
    Drawn json body (items.flatMap texts) contents calls := by
  induction h with
  | nil => exact .nil json body
  | cons hx _ ih =>
    have hhead := hstep _ List.mem_cons_self _ _ _ hx
    exact hhead.append (ih fun item hitem => hstep item (List.mem_cons_of_mem _ hitem))

theorem Drawn.of_emitted_same {Emits : Nat → JsonValue → List Content → List ToolCall → Prop} {n : Nat}
    {items : List JsonValue} (h : Emitted Emits n items contents calls)
    (hstep : ∀ item ∈ items, ∀ n cs ks, Emits n item cs ks → Drawn json body [] cs ks) :
    Drawn json body [] contents calls := by
  have hdrawn := Drawn.of_emitted h hstep
  rwa [List.flatMap_eq_nil_iff.mpr fun _ _ => rfl] at hdrawn

end

/-- Where an accepted response has its texts from. `key` is the member of the message's
metadata that holds its native form. -/
structure Taken (json : JsonText) (headers : List HttpHeader) (key : String) (body : JsonValue) (raws : List String)
    (r : AIResponse) : Prop where
  requestId : TextOf body r.providerRequestId ∨ ∃ header ∈ headers, r.providerRequestId = header.value
  model : TextOf body r.providerModel
  drawn : Drawn json body raws r.message.contents r.message.toolCalls
  message : Draws (r.message.providerMetadata.member key) body
  response : r.providerMetadata.member "response" = body

theorem member_nativeMetadata {key : String} (hkey : key ≠ "provider") (provider : String) (v : JsonValue) :
    (nativeMetadata provider key v).member key = v := by
  unfold nativeMetadata JsonValue.member
  rw [find?_ofMembers, OrdMap.find?_cons, if_neg (Ne.symm hkey), OrdMap.find?_cons, if_pos rfl]
  rfl

theorem responseBody_requestId {json : JsonText} {response : HttpResponse} {provider : Provider}
    {headerName idField : String} {httpError : String → Exc} {body : JsonValue} {requestId : String}
    (h : responseBody json response provider headerName idField httpError = .ok (body, requestId)) :
    TextOf body requestId ∨ ∃ header ∈ response.headers, requestId = header.value := by
  unfold responseBody at h
  simp only [bind_eq_ok, pure_eq_ok, Except.ok.injEq, Prod.mk.injEq] at h
  obtain ⟨_, _, parsed, _, rfl, rfl⟩ := h
  by_cases hempty : responseRequestId response [headerName] = ""
  · rw [if_pos hempty]
    exact .inl ((Draws.refl parsed).stringField idField)
  · rw [if_neg hempty]
    unfold responseRequestId HttpResponse.header at hempty ⊢
    simp only [List.findSome?_cons, List.findSome?_nil] at hempty ⊢
    cases hfind : response.headers.find? fun item => asciiEqualCaseInsensitive item.name headerName with
    | none => simp [hfind] at hempty
    | some header => exact .inr ⟨header, List.mem_of_find?_eq_some hfind, rfl⟩

/-! ## OpenAI -/

namespace OpenAIClient

def itemTexts (item : JsonValue) : List String :=
  if item.stringField "type" = "function_call" then [item.stringField "arguments"] else []

def argumentTexts (body : JsonValue) : List String := (arrayMember body "output").flatMap itemTexts

section
variable {json : JsonText} {body : JsonValue}

theorem PartContent.value {part : JsonValue} {c : Content} (h : PartContent part c) (hpart : Draws part body) :
    TextOf body c.value := by
  unfold PartContent at h
  by_cases htext : part.stringField "type" = "output_text"
  · rw [if_pos htext] at h
    obtain ⟨text, hfind, rfl⟩ := h
    exact (hpart.find? hfind).textOf
  rw [if_neg htext] at h
  by_cases hrefusal : part.stringField "type" = "refusal"
  · rw [if_pos hrefusal] at h
    obtain ⟨refusal, hfind, rfl⟩ := h
    exact (hpart.find? hfind).textOf
  · rw [if_neg hrefusal] at h
    exact .inl (Content.extension_ok h).2.2.2

theorem ItemEmits.drawn {n : Nat} {item : JsonValue} {cs : List Content} {ks : List ToolCall}
    (h : ItemEmits json (fun _ cs => cs = []) n item cs ks) (hitem : Draws item body) :
    Drawn json body (itemTexts item) cs ks := by
  unfold itemTexts
  cases h with
  | @message parts cs htype hparts hcs =>
    have hdraws : Draws (.array parts) body := hitem.find? hparts
    rw [htype, if_neg (by decide)]
    apply (Drawn.nil json body).with_contents
    intro c hc
    obtain ⟨part, hpart, hcontent⟩ := mem_of_forall₂ hcs.flip c hc
    exact PartContent.value hcontent (hdraws.element hpart)
  | @image c htype himage =>
    obtain ⟨encoded, bytes, _, _, hok⟩ := himage
    rw [htype, if_neg (by decide)]
    exact .content (.inl (Content.ofBytes_ok hok).2)
  | call htype _ _ =>
    rw [if_pos htype]
    exact .decode (.inl hitem) rfl
  | other htype hnone =>
    have hcall : item.stringField "type" ≠ "function_call" := by
      intro hcall
      rw [hcall] at htype
      exact htype (by decide)
    rw [if_neg hcall, hnone]
    exact .nil json body

theorem orError_value {contents : List Content} (h : ∀ c ∈ contents, TextOf body c.value) :
    ∀ c ∈ orError body contents, TextOf body c.value := by
  unfold orError
  by_cases hnil : contents = []
  · rw [if_pos hnil]
    exact textContents_value (((Draws.refl body).member "error").stringField "message")
  · rw [if_neg hnil]
    exact h

end

theorem parseResponse_taken {json : JsonText} {response : HttpResponse} {r : AIResponse}
    (h : parseResponse json response = .ok r) :
    ∃ body, json.parse response.body = some body ∧
      Taken json response.headers "output" body (argumentTexts body) r := by
  unfold parseResponse at h
  simp only [bind_eq_ok, Prod.exists] at h
  obtain ⟨body, requestId, hbody, output, houtput, parsed, hfold, h⟩ := h
  have hfind := requireArray_ok houtput
  have houtput : Draws (.array output) body := (Draws.refl body).find? hfind
  have hdrawn : Drawn json body (output.flatMap itemTexts) parsed.contents parsed.calls := by
    apply Drawn.of_emitted (foldlM_parsed (fun _ _ _ => parseItem_emits) hfold)
    exact fun item hitem _ _ _ hemits => hemits.drawn (houtput.element hitem)
  have htexts : argumentTexts body = output.flatMap itemTexts := by
    unfold argumentTexts
    rw [arrayMember_eq hfind]
  rw [← Except.ok.inj h]
  refine ⟨body, (responseBody_ok hbody).1, ?_⟩
  constructor
  · exact responseBody_requestId hbody
  · exact (Draws.refl body).stringField "model"
  · rw [htexts]
    exact hdrawn.with_contents (orError_value hdrawn.contents)
  · show Draws ((nativeMetadata "openai" "output" (.array output)).member "output") body
    rw [member_nativeMetadata (by decide)]
    exact houtput
  · exact member_nativeMetadata (by decide) "openai" body

end OpenAIClient

/-! ## Anthropic -/

namespace AnthropicClient

theorem BlockEmits.drawn {json : JsonText} {body block : JsonValue} {n : Nat} {cs : List Content} {ks : List ToolCall}
    (h : BlockEmits json n block cs ks) (hblock : Draws block body) : Drawn json body [] cs ks := by
  obtain ⟨_, h⟩ := h
  unfold OneEach at h
  by_cases huse : isToolUse block = true
  · rw [if_pos huse] at h
    rw [h.1, h.2]
    exact .call hblock (hblock.member "input")
  rw [if_neg huse] at h
  obtain ⟨⟨c, hc, rfl⟩, rfl⟩ := h
  unfold BlockContent at hc
  by_cases htext : block.stringField "type" = "text"
  · rw [if_pos htext] at hc
    obtain ⟨text, hfind, rfl⟩ := hc
    exact .content (hblock.find? hfind).textOf
  · rw [if_neg htext] at hc
    exact .content (.inl (Content.extension_ok hc).2.2.2)

theorem parseResponse_taken {json : JsonText} {response : HttpResponse} {r : AIResponse}
    (h : parseResponse json response = .ok r) :
    ∃ body, json.parse response.body = some body ∧ Taken json response.headers "content" body [] r := by
  unfold parseResponse at h
  simp only [bind_eq_ok, Prod.exists] at h
  obtain ⟨body, requestId, hbody, content, hcontent, parsed, hfold, usage, _, h⟩ := h
  have hcontent : Draws (.array content) body := (Draws.refl body).find? (requireArray_ok hcontent)
  have hdrawn : Drawn json body [] parsed.contents parsed.calls := by
    apply Drawn.of_emitted_same (foldlM_parsed (fun _ _ _ => parseBlock_emits) hfold)
    exact fun block hblock _ _ _ hemits => hemits.drawn (hcontent.element hblock)
  rw [← Except.ok.inj h]
  refine ⟨body, (responseBody_ok hbody).1, ?_⟩
  constructor
  · exact responseBody_requestId hbody
  · exact (Draws.refl body).stringField "model"
  · exact hdrawn
  · show Draws ((nativeMetadata "anthropic" "content" (.array content)).member "content") body
    rw [member_nativeMetadata (by decide)]
    exact hcontent
  · exact member_nativeMetadata (by decide) "anthropic" body

end AnthropicClient

/-! ## Gemini -/

namespace GeminiClient

theorem PartContent.value {body part : JsonValue} {c : Content} (h : PartContent part c) (hpart : Draws part body) :
    TextOf body c.value := by
  cases h with
  | thought _ _ _ hc => exact .inl (Content.extension_ok hc).2.2.2
  | text text htext _ hc =>
    rw [hc]
    exact (hpart.find? htext).textOf
  | inlineData _ _ _ _ _ hc => exact .inl (Content.ofBytes_ok hc).2
  | fileData _ _ _ _ hc => exact .inl (Content.ofUrl_ok hc).2
  | native _ hc => exact .inl (Content.extension_ok hc).2.2.2

theorem PartEmits.drawn {json : JsonText} {request : AIRequest} {body part : JsonValue} {n : Nat} {cs : List Content}
    {ks : List ToolCall} (h : PartEmits json request n part cs ks) (hpart : Draws part body) :
    Drawn json body [] cs ks := by
  obtain ⟨_, h⟩ := h
  unfold OneEach at h
  by_cases hcall : isCallPart part = true
  · rw [if_pos hcall] at h
    rw [h.1, h.2]
    exact .call hpart ((hpart.member "functionCall").getD (draws_emptyObject body) "args")
  · rw [if_neg hcall] at h
    obtain ⟨⟨c, hc, rfl⟩, rfl⟩ := h
    exact .content (hc.value hpart)

theorem draws_candidateContent (body : JsonValue) : Draws (candidateContent body) body := by
  unfold candidateContent
  split
  · next candidate rest hcandidates =>
    have harray : Draws (.array (candidate :: rest)) body := (Draws.refl body).find? hcandidates
    exact (harray.element (List.mem_cons_self ..)).getD (draws_emptyObject body) "content"
  · exact draws_emptyObject body

theorem parseResponse_taken {json : JsonText} {request : AIRequest} {response : HttpResponse} {r : AIResponse}
    (h : parseResponse json request response = .ok r) :
    ∃ body, json.parse response.body = some body ∧ Taken json response.headers "content" body [] r := by
  unfold parseResponse at h
  simp only [bind_eq_ok, Prod.exists] at h
  obtain ⟨body, requestId, hbody, candidate, hcandidate, content, hcontent, parts, hparts, parsed, hfold, h⟩ := h
  have hcontent : Draws content body := by
    rw [(parseContent_ok hcontent).1, parseCandidate_ok hcandidate]
    exact draws_candidateContent body
  have hparts := parseParts_ok hparts
  have hdrawn : Drawn json body [] parsed.contents parsed.calls := by
    apply Drawn.of_emitted_same (foldlM_parsed (fun _ _ _ => parsePart_emits) hfold)
    intro part hpart _ _ _ hemits
    rw [← hparts] at hpart
    exact hemits.drawn (hcontent.of_mem hpart)
  rw [← Except.ok.inj h]
  refine ⟨body, (responseBody_ok hbody).1, ?_⟩
  constructor
  · exact responseBody_requestId hbody
  · exact (Draws.refl body).stringField "modelVersion"
  · exact hdrawn
  · show Draws ((nativeMetadata "gemini" "content" content).member "content") body
    rw [member_nativeMetadata (by decide)]
    exact hcontent
  · exact member_nativeMetadata (by decide) "gemini" body

end GeminiClient

/-! ## OpenAI-compatible -/

namespace CompatibleClient

def callText (call : JsonValue) : String := (call.member "function").stringField "arguments"

def messageTexts (native : JsonValue) : List String :=
  if arrayMember native "tool_calls" = [] then
    if (native.member "function_call").isObject then [(native.member "function_call").stringField "arguments"] else []
  else (arrayMember native "tool_calls").map callText

def argumentTexts (body : JsonValue) : List String := messageTexts (choiceMessage body)

theorem draws_choiceMessage (body : JsonValue) : Draws (choiceMessage body) body := by
  unfold choiceMessage
  split
  · next choice rest hchoices =>
    have harray : Draws (.array (choice :: rest)) body := (Draws.refl body).find? hchoices
    exact (harray.element (List.mem_cons_self ..)).member "message"
  · exact draws_null body

section
variable {json : JsonText} {malformed : String → Exc} {unsupported : String → Exc} {body native : JsonValue}
  {raws : List String} {contents contents' : List Content} {calls calls' : List ToolCall}

/-! ### Contents -/

theorem parsePart_value {part : JsonValue} {c : Content} (hpart : Draws part body)
    (h : parsePart malformed part = .ok c) : TextOf body c.value := by
  unfold parsePart at h
  simp only [bind_eq_ok] at h
  obtain ⟨_, _, _, _, h⟩ := h
  by_cases htext : part.stringField "type" = "text"
  · rw [if_pos htext] at h
    simp only [bind_eq_ok, pure_eq_ok, Except.ok.injEq] at h
    obtain ⟨text, hs, rfl⟩ := h
    exact hpart.requireString hs
  rw [if_neg htext] at h
  by_cases himage : part.stringField "type" = "image_url"
  · rw [if_pos himage] at h
    unfold parseImageUrl at h
    split at h
    · simp only [bind_eq_ok] at h
      obtain ⟨url, _, _, _, h⟩ := h
      exact .inl (Content.ofUrl_ok h).2
    · cases h
  · rw [if_neg himage] at h
    exact .inl (Content.extension_ok h).2.2.2

theorem parseContents_value (hnative : Draws native body) (h : parseContents malformed native = .ok contents) :
    ∀ c ∈ contents, TextOf body c.value := by
  unfold parseContents at h
  intro c hc
  split at h
  · rw [← Except.ok.inj h] at hc
    cases hc
  · rw [← Except.ok.inj h] at hc
    cases hc
  · next text htext =>
    rw [← Except.ok.inj h, List.mem_singleton] at hc
    rw [hc]
    exact (hnative.find? htext).textOf
  · next parts hparts =>
    obtain ⟨part, hpart, hok⟩ := mem_of_mapM h c hc
    exact parsePart_value ((hnative.find? hparts).element hpart) hok
  · cases h

theorem withRefusal_value (hnative : Draws native body) (hc : ∀ c ∈ contents, TextOf body c.value) :
    ∀ c ∈ withRefusal native contents, TextOf body c.value := by
  unfold withRefusal
  split
  · next refusal hrefusal =>
    intro c hmem
    rw [List.mem_singleton.mp hmem]
    exact (hnative.find? hrefusal).textOf
  · exact hc

theorem withAudio_value {malformedAudio : Exc} (hnative : Draws native body) (hc : ∀ c ∈ contents, TextOf body c.value)
    (h : withAudio malformed malformedAudio native contents = .ok contents') :
    ∀ c ∈ contents', TextOf body c.value := by
  unfold withAudio at h
  split at h
  · rwa [← Except.ok.inj h]
  · rwa [← Except.ok.inj h]
  · next m haudio =>
    have haudio : Draws (.object m) body := hnative.find? haudio
    simp only [bind_eq_ok] at h
    obtain ⟨_, _, _, _, data, _, _, _, _, _, h⟩ := h
    split at h
    · cases h
    · cases h
    · simp only [bind_eq_ok, pure_eq_ok, Except.ok.injEq] at h
      obtain ⟨audio, hok, rfl⟩ := h
      intro c hmem
      rcases List.mem_append.mp hmem with hmem | hmem
      · rcases List.mem_append.mp hmem with hmem | hmem
        · exact hc c hmem
        · by_cases hnil : contents = []
          · rw [if_pos hnil] at hmem
            exact textContents_value (haudio.stringField "transcript") c hmem
          · rw [if_neg hnil] at hmem
            cases hmem
      · rw [List.mem_singleton.mp hmem]
        exact .inl (Content.ofBytes_ok hok).2
  · cases h

/-! ### Calls -/

theorem parseToolCalls_drawn (hnative : Draws native body)
    (h : parseToolCalls json malformed unsupported native = .ok calls) :
    Drawn json body ((arrayMember native "tool_calls").map callText) [] calls := by
  have hall := parseToolCalls_ok h
  constructor
  · exact fun c hc => absurd hc List.not_mem_nil
  · intro call hcall
    obtain ⟨entry, hentry, hok⟩ := mem_of_forall₂ hall.flip call hcall
    rw [(parseToolCall_ok hok).2.1]
    exact .inl (hnative.of_mem hentry)
  · intro call hcall
    obtain ⟨entry, hentry, hok⟩ := mem_of_forall₂ hall.flip call hcall
    exact .inr ⟨callText entry, List.mem_map_of_mem hentry, (parseToolCall_ok hok).2.2⟩
  · intro raw hraw
    obtain ⟨entry, hentry, rfl⟩ := List.mem_map.mp hraw
    obtain ⟨call, hcall, hok⟩ := mem_of_forall₂ hall entry hentry
    exact ⟨call, hcall, (parseToolCall_ok hok).2.2⟩

theorem withLegacyCall_drawn {request : AIRequest} (hnative : Draws native body)
    (hcalls : parseToolCalls json malformed unsupported native = .ok calls)
    (h : withLegacyCall json malformed request native calls = .ok calls') :
    Drawn json body (messageTexts native) [] calls' := by
  have hempty := parseToolCalls_nil_iff hcalls
  have hdrawn := parseToolCalls_drawn hnative hcalls
  unfold messageTexts
  rcases withLegacyCall_cases h with ⟨rfl, hlegacy⟩ | ⟨m, name, rawArguments, invalid, hfind, hnil, hparsed, rfl⟩
  · by_cases hnil : arrayMember native "tool_calls" = []
    · rw [if_pos hnil, hlegacy (hempty.mpr hnil), if_neg (by decide)]
      rwa [hnil] at hdrawn
    · rwa [if_neg hnil]
  · rw [if_pos (hempty.mp hnil), member_eq hfind, if_pos (show (JsonValue.object m).isObject = true from rfl),
      parseFunction_arguments hparsed]
    exact .decode (.inr ⟨.object m, hnative.find? hfind, rfl⟩) rfl

end

theorem parseResponse_taken {json : JsonText} {request : AIRequest} {response : HttpResponse} {r : AIResponse}
    (h : parseResponse json request response = .ok r) :
    ∃ body, json.parse response.body = some body ∧
      Taken json response.headers "message" body (argumentTexts body) r := by
  unfold parseResponse at h
  simp only [bind_eq_ok, Prod.exists] at h
  obtain ⟨body, requestId, hbody, choice, hchoice, native, hnative, contents, hcontents, calls, hcalls, calls', hcalls',
    contents', hcontents', h⟩ := h
  have hchosen := (parseMessage_ok hchoice hnative).1
  have hnative : Draws native body := by
    rw [hchosen]
    exact draws_choiceMessage body
  have hvalues := withRefusal_value hnative (parseContents_value hnative hcontents)
  have hdrawn := withLegacyCall_drawn hnative hcalls hcalls'
  rw [← Except.ok.inj h]
  refine ⟨body, (responseBody_ok hbody).1, ?_⟩
  constructor
  · exact responseBody_requestId hbody
  · exact (Draws.refl body).stringField "model"
  · unfold argumentTexts
    rw [← hchosen]
    exact hdrawn.with_contents (withAudio_value hnative hvalues hcontents')
  · show Draws ((nativeMetadata "openai_compatible" "message" native).member "message") body
    rw [member_nativeMetadata (by decide)]
    exact hnative
  · exact member_nativeMetadata (by decide) "openai_compatible" body

end CompatibleClient

end NeuralPlus
