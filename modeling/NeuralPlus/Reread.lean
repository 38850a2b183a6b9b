import NeuralPlus.NormalizeSound
import NeuralPlus.Providers
import NeuralPlus.Base64Sound
import NeuralPlus.OpenAISound

/-!
# What a provider reads in another's message

An assistant message that came from elsewhere is written anew for a provider.
Where the adapter's own parser reads what it wrote, it finds the message's text
and its calls.
-/

namespace NeuralPlus

open Fallible

structure ToolCall.Same (call call' : ToolCall) : Prop where
  id : call'.id = call.id
  name : call'.name = call.name
  arguments : call'.arguments = call.arguments
  argumentsValid : call'.argumentsValid = true

/-- A call that a provider can read: it has an id, a name and an object, which its raw text spells. -/
structure ToolCall.Readable (json : JsonText) (call : ToolCall) : Prop where
  id : call.id ≠ ""
  name : call.name ≠ ""
  object : call.arguments.isObject = true
  raw : json.parse call.rawArguments = some call.arguments

def SameText (c c' : Content) : Prop := textValue c' = textValue c

/-- Media that stay media: the bytes or the URL, with the media type. -/
structure SameMedia (c c' : Content) : Prop where
  text : SameText c c'
  bytes : c.source = .bytes → c'.bytes = c.bytes ∧ c'.mediaType = c.mediaType
  url : c.source = .url → c'.url = c.url ∧ c'.mediaType = c.mediaType

structure Message.Same (R : Content → Content → Prop) (m m' : Message) : Prop where
  role : m'.role = m.role
  contents : List.Forall₂ R m.contents m'.contents
  calls : List.Forall₂ ToolCall.Same m.toolCalls m'.toolCalls

theorem text_of_sameText {contents contents' : List Content} (h : List.Forall₂ SameText contents contents') :
    contents'.filterMap textValue = contents.filterMap textValue := by
  induction h with
  | nil => rfl
  | cons hc _ ih => rw [List.filterMap_cons, List.filterMap_cons, ih, hc]

theorem textValue_of_ne {c : Content} (h : c.type ≠ .text) : textValue c = none := if_neg h

theorem sameText_of_ne {c c' : Content} (h : c.type ≠ .text) (h' : c'.type ≠ .text) : SameText c c' := by
  unfold SameText
  rw [textValue_of_ne h, textValue_of_ne h']

theorem sameText_text {c : Content} (h : c.type = .text) : SameText c (.text c.value) := by
  unfold SameText textValue
  rw [if_pos h]
  rfl

theorem foldl_content (cs : List Content) : ∀ parsed : Parsed,
    cs.foldl Parsed.content parsed = { parsed with contents := parsed.contents ++ cs } := by
  induction cs with
  | nil => simp
  | cons c cs ih =>
    intro parsed
    rw [List.foldl_cons, ih]
    simp [Parsed.content]

theorem foldl_call (calls : List ToolCall) : ∀ parsed : Parsed,
    calls.foldl Parsed.call parsed = { parsed with calls := parsed.calls ++ calls } := by
  induction calls with
  | nil => simp
  | cons call calls ih =>
    intro parsed
    rw [List.foldl_cons, ih]
    simp [Parsed.call]

section
variable {R : Content → Content → Prop} {encode : Content → Except Exc JsonValue} {encodeCall : ToolCall → JsonValue}
  {step : Parsed → JsonValue → Except Exc Parsed} {contents : List Content} {calls : List ToolCall}

theorem foldlM_same
    (hcontent : ∀ c part, c ∈ contents ∧ encode c = .ok part →
      ∀ parsed, ∃ c', step parsed part = .ok (parsed.content c') ∧ R c c')
    (hcall : ∀ call part, call ∈ calls ∧ part = encodeCall call →
      ∀ parsed, ∃ call', step parsed part = .ok (parsed.call call') ∧ call.Same call')
    {parts : List JsonValue} (hparts : contents.mapM encode = .ok parts) :
    ∃ contents' calls', List.Forall₂ R contents contents' ∧ List.Forall₂ ToolCall.Same calls calls' ∧
      (parts ++ calls.map encodeCall).foldlM step {} = .ok { contents := contents', calls := calls' } := by
  have hencoded := (List.forall₂_and_left contents parts).mpr ⟨fun c hc => hc, mapM_eq_ok hparts⟩
  obtain ⟨contents', hsame, hread⟩ := foldlM_decodes hcontent hencoded {}
  have hencoded : List.Forall₂ (fun call part => call ∈ calls ∧ part = encodeCall call) calls
      (calls.map encodeCall) := by
    rw [List.forall₂_map_right_iff, List.forall₂_same]
    exact fun call hmem => ⟨hmem, rfl⟩
  obtain ⟨calls', hsames, hreads⟩ := foldlM_decodes hcall hencoded (contents'.foldl Parsed.content {})
  refine ⟨contents', calls', hsame, hsames, ?_⟩
  rw [List.foldlM_append, hread, ok_bind, hreads, foldl_content, foldl_call]
  simp

end

theorem responseBody_of_parse {json : JsonText} {response : HttpResponse} {body : JsonValue} (provider : Provider)
    (headerName idField : String) (httpError : String → Exc) (hstatus : successfulStatus response.status = true)
    (hbody : json.parse response.body = some body) (hobject : body.isObject = true) :
    ∃ requestId, responseBody json response provider headerName idField httpError = .ok (body, requestId) := by
  unfold responseBody parseResponseJson throwIf
  rw [hstatus, hbody]
  cases body with
  | object m => exact ⟨_, rfl⟩
  | _ => cases hobject

/-- A turn that joins no other is the one written. -/
theorem appendTurn_new {key role : String} {turns blocks : List JsonValue} {written : JsonValue}
    (h : appendTurn key turns role blocks = turns ++ [written]) : written = turn key role blocks := by
  have hnew : turns ++ [turn key role blocks] = turns ++ [written] → written = turn key role blocks := by
    intro h
    exact (List.cons.inj (List.append_cancel_left h)).1.symm
  unfold appendTurn at h
  cases hlast : turns.getLast? with
  | none =>
    rw [hlast] at h
    exact hnew h
  | some last =>
    rw [hlast] at h
    dsimp only at h
    split at h
    · split at h
      · -- a turn that joins the last one adds no entry
        have hne : turns.length ≠ 0 := by
          intro hempty
          rw [List.length_eq_zero_iff.mp hempty] at hlast
          cases hlast
        have hlength := congrArg List.length h
        simp only [List.length_append, List.length_dropLast, List.length_singleton] at hlength
        omega
      · exact hnew h
    · exact hnew h

theorem checkMember_none {object : JsonValue} {key : String} {valid : JsonValue → Bool} {e : Exc}
    (h : object.find? key = none) : checkMember object key valid e = .ok () := by
  unfold checkMember throwIf
  rw [h]
  exact if_neg (by simp)

theorem checkMember_some {object v : JsonValue} {key : String} {valid : JsonValue → Bool} {e : Exc}
    (h : object.find? key = some v) (hv : valid v = true) : checkMember object key valid e = .ok () := by
  unfold checkMember throwIf
  rw [h]
  exact if_neg (by simp [hv])

theorem extension_of_isObject {provider : String} {data : JsonValue} (hprovider : provider ≠ "")
    (hdata : data.isObject = true) : ∃ c, Content.extension provider data = .ok c ∧ c.type ≠ .text := by
  unfold Content.extension
  rw [dif_neg hprovider, dif_pos hdata]
  exact ⟨_, rfl, by simp⟩

theorem ofBytes_of_ne (media : Content.Media) {bytes : List UInt8} {mediaType : String} (hbytes : bytes ≠ [])
    (hmedia : mediaType ≠ "") (filename : String) :
    ∃ c, Content.ofBytes media bytes mediaType filename .emptyObject = .ok c ∧ c.type ≠ .text ∧ c.bytes = bytes ∧
      c.mediaType = mediaType := by
  unfold Content.ofBytes
  rw [dif_neg hbytes, dif_neg hmedia]
  exact ⟨_, dif_pos rfl, Content.media_ne_text media, rfl, rfl⟩

theorem ofUrl_of_ne (media : Content.Media) {url : String} (hurl : url ≠ "") (mediaType filename : String) :
    ∃ c, Content.ofUrl media url mediaType filename .emptyObject = .ok c ∧ c.type ≠ .text ∧ c.url = url ∧
      c.mediaType = mediaType := by
  unfold Content.ofUrl
  rw [dif_neg hurl]
  exact ⟨_, dif_pos rfl, Content.media_ne_text media, rfl, rfl⟩

/-! ## Anthropic -/

namespace AnthropicClient
variable {json : JsonText} (malformed : String → Exc)

theorem parseBlock_other {part : JsonValue} {type : String} (htype : part.find? "type" = some (.string type))
    (htext : type ≠ "text") (huse : type ≠ "tool_use") (parsed : Parsed) :
    ∃ c', parseBlock json malformed parsed part = .ok (parsed.content c') ∧ c'.type ≠ .text := by
  have hobject := JsonValue.isObject_of_find? htype
  obtain ⟨c', hc', htype'⟩ := extension_of_isObject (show "anthropic" ≠ "" by decide) hobject
  refine ⟨c', ?_, htype'⟩
  unfold parseBlock checkMember throwIf
  rw [JsonValue.stringField_eq htype, htype, hobject, hc']
  simp [JsonValue.isString, htext, huse, -bind_eq_ok]

theorem find?_document (c : Content) (source : JsonValue) :
    (document c source).find? "type" = some (.string "document") := by
  unfold document
  rw [find?_setIfSome_ne (by decide)]
  exact JsonValue.find?_ofMembers ..

theorem contentPart_same {c : Content} {part : JsonValue} (hforeign : c.provider ≠ "anthropic")
    (h : contentPart c = .ok part) (parsed : Parsed) :
    ∃ c', parseBlock json malformed parsed part = .ok (parsed.content c') ∧ SameText c c' := by
  have hmedia : ∀ {type : String}, c.type ≠ .text → part.find? "type" = some (.string type) → type ≠ "text" →
      type ≠ "tool_use" → ∃ c', parseBlock json malformed parsed part = .ok (parsed.content c') ∧ SameText c c' := by
    intro type hc htype htext huse
    obtain ⟨c', hc', htype'⟩ := parseBlock_other malformed htype htext huse parsed
    exact ⟨c', hc', sameText_of_ne hc htype'⟩
  unfold contentPart at h
  split at h
  · next htype _ =>
    cases h
    refine ⟨.text c.value, ?_, sameText_text htype⟩
    unfold parseBlock checkMember JsonValue.stringField requireString throwIf
    simp [OrdMap.find?_cons, JsonValue.isString, -bind_eq_ok]
  · next htype _ =>
    cases h
    exact hmedia (by simp [htype]) (JsonValue.find?_ofMembers ..) (by decide) (by decide)
  · next htype _ =>
    cases h
    exact hmedia (by simp [htype]) (JsonValue.find?_ofMembers ..) (by decide) (by decide)
  · next htype _ =>
    cases h
    exact hmedia (by simp [htype]) (find?_document c _) (by decide) (by decide)
  · next htype _ =>
    split at h
    · cases h
      exact hmedia (by simp [htype]) (find?_document c _) (by decide) (by decide)
    · cases h
  · next htype _ =>
    rw [if_neg hforeign] at h
    cases h
  · cases h

theorem toolUseBlock_same {call : ToolCall} (hcall : call.Readable json) (parsed : Parsed) :
    ∃ call', parseBlock json malformed parsed (toolUseBlock call) = .ok (parsed.call call') ∧ call.Same call' := by
  obtain ⟨m, hm⟩ : ∃ m, call.arguments = .object m := by
    have hobject := hcall.object
    cases harguments : call.arguments with
    | object m => exact ⟨m, rfl⟩
    | _ =>
      rw [harguments] at hobject
      cases hobject
  refine ⟨{
    id := call.id, name := call.name, arguments := .object m, rawArguments := json.dump (.object m)
    argumentsValid := true, providerMetadata := toolUseBlock call }, ?_, rfl, rfl, hm.symm, rfl⟩
  unfold parseBlock checkMember JsonValue.stringField parseToolUse toolUseBlock throwIf
  simp [OrdMap.find?_cons, hm, JsonValue.isString, hcall.id, hcall.name, -bind_eq_ok]

theorem reread {m : Message} {turns : List JsonValue} {turn : JsonValue} {response : HttpResponse}
    (hrole : m.role = .assistant) (hnative : nativeContent m = none)
    (hforeign : ∀ c ∈ m.contents, c.provider ≠ "anthropic") (hcalls : ∀ call ∈ m.toolCalls, call.Readable json)
    (h : appendHistory turns m = .ok (turns ++ [turn])) (hstatus : successfulStatus response.status = true)
    (hbody : json.parse response.body = some turn) :
    ∃ r, parseResponse json response = .ok r ∧ m.Same SameText r.message := by
  unfold appendHistory at h
  rw [hrole, hnative] at h
  simp only [bind_eq_ok, pure_eq_ok, Except.ok.injEq] at h
  obtain ⟨parts, hparts, hturn⟩ := h
  have hturn : turn = NeuralPlus.turn "content" "assistant" (parts ++ m.toolCalls.map toolUseBlock) :=
    appendTurn_new hturn
  have hobject : turn.isObject = true := by
    rw [hturn]
    rfl
  obtain ⟨requestId, hresponse⟩ :=
    responseBody_of_parse .anthropic "request-id" "id" (httpError json response) hstatus hbody hobject
  obtain ⟨contents, calls, hcontents, hsame, hread⟩ := foldlM_same
    (fun c part hc => contentPart_same (malformedResponse .anthropic response requestId) (hforeign c hc.1) hc.2)
    (fun call part hcall parsed => by
      rw [hcall.2]
      exact toolUseBlock_same _ (hcalls call hcall.1) parsed) hparts
  have hblocks : turn.find? "content" = some (.array (parts ++ m.toolCalls.map toolUseBlock)) := by
    rw [hturn]
    exact find?_turn (by decide) ..
  have husage : turn.find? "usage" = none := by
    rw [hturn]
    exact (JsonValue.find?_ofMembers ..).trans rfl
  unfold parseResponse requireArray
  rw [hresponse, ok_bind]
  dsimp only
  rw [hblocks, ok_bind, hread, ok_bind, JsonValue.member_of_none husage]
  exact ⟨_, rfl, hrole.symm, hcontents, hsame⟩

end AnthropicClient

/-! ## Gemini -/

namespace GeminiClient
variable {json : JsonText} {request : AIRequest} {malformed : String → Exc} {malformedData malformedFile : Exc}

theorem checkPart_payload {key : String} {v : JsonValue} (hkey : key ∈ payloadFields)
    (htext : key = "text" → v.isString = true)
    (hinline : checkData malformed (.ofMembers [(key, v)]) "inlineData" ["mimeType", "data", "displayName"] = .ok ())
    (hfile : checkData malformed (.ofMembers [(key, v)]) "fileData" ["mimeType", "fileUri", "displayName"] = .ok ())
    (hcall : checkFunctionCall malformed (.ofMembers [(key, v)]) = .ok ()) :
    checkPart malformed (.ofMembers [(key, v)]) = .ok () := by
  have hfind : ∀ {other : String}, key ≠ other → (JsonValue.ofMembers [(key, v)]).find? other = none := by
    intro other hne
    rw [JsonValue.find?_ofMembers, OrdMap.find?_cons, if_neg hne]
    rfl
  have hmark : ∀ {mark : String}, mark ∉ payloadFields → key ≠ mark := by
    rintro mark hmark rfl
    exact hmark hkey
  have hcontains : (JsonValue.ofMembers [(key, v)]).contains = fun other => decide (key = other) := by
    funext other
    unfold JsonValue.contains
    rw [JsonValue.find?_ofMembers, OrdMap.find?_cons]
    by_cases h : key = other
    · simp [h]
    · simp [h, OrdMap.find?_nil]
  have htext : checkMember (.ofMembers [(key, v)]) "text" JsonValue.isString
      (malformed "Gemini response text part must contain a string") = .ok () := by
    by_cases h : key = "text"
    · subst h
      exact checkMember_some (JsonValue.find?_ofMembers ..) (htext rfl)
    · exact checkMember_none (hfind h)
  have hone : ¬ (payloadFields.filter (JsonValue.ofMembers [(key, v)]).contains).length > 1 := by
    have hcount : ∀ key ∈ payloadFields, ¬ (payloadFields.filter fun other => decide (key = other)).length > 1 := by
      decide
    rw [hcontains]
    exact hcount key hkey
  unfold checkPart
  rw [htext, checkMember_none (hfind (hmark (by decide))), checkMember_none (hfind (hmark (by decide))), hinline, hfile,
    hcall]
  unfold throwIf
  rw [if_neg hone, if_neg (by simp)]
  rfl

theorem parsePart_text (value : String) (parsed : Parsed) :
    parsePart json request malformed malformedData malformedFile parsed (.ofMembers [("text", .string value)]) =
      .ok (parsed.content (.text value)) := by
  unfold parsePart
  rw [checkPart_payload (by decide) (fun _ => rfl) rfl rfl rfl]
  rfl

theorem checkData_strings {part data : JsonValue} {key : String} {fields : List String}
    (hdata : part.find? key = some data) (hobject : data.isObject = true)
    (h : ∀ field ∈ fields, ∀ v, data.find? field = some v → v.isString = true) :
    checkData malformed part key fields = .ok () := by
  unfold checkData throwIf
  rw [hdata]
  dsimp only
  rw [hobject]
  refine (ok_bind () _).trans (forM_eq_ok.mpr ?_)
  intro field hfield
  cases hfind : data.find? field with
  | none => exact checkMember_none hfind
  | some v => exact checkMember_some hfind (h field hfield v hfind)

theorem isString_of_members {members : List (String × JsonValue)} (h : ∀ p ∈ members, p.2.isString = true)
    {field : String} {v : JsonValue} (hv : (JsonValue.ofMembers members).find? field = some v) : v.isString = true := by
  rw [JsonValue.find?_ofMembers] at hv
  exact h _ (OrdMap.find?_mem hv)

theorem parseInlineData_of (malformedData : Exc) {data : JsonValue} {mediaType : String} {bytes : List UInt8}
    (hmime : data.find? "mimeType" = some (.string mediaType))
    (hdata : data.find? "data" = some (.string (base64Encode bytes))) (hbytes : bytes ≠ []) (hmedia : mediaType ≠ "") :
    ∃ c, parseInlineData malformedData data = .ok c ∧ c.type ≠ .text ∧ c.bytes = bytes ∧ c.mediaType = mediaType := by
  have hdecode : base64Decode (base64Encode bytes) = some bytes :=
    base64Decode_eq_some.mpr ⟨hbytes, withoutWhitespace_encode bytes⟩
  unfold parseInlineData
  dsimp only
  rw [JsonValue.stringField_eq hmime, JsonValue.stringField_eq hdata, hdecode]
  cases bytes with
  | nil => exact absurd rfl hbytes
  | cons byte bytes =>
    dsimp only
    rw [if_neg hmedia]
    exact ofBytes_of_ne _ hbytes hmedia _

theorem parsePart_inlineData {c : Content} (hsource : c.source = .bytes) (parsed : Parsed) :
    ∃ c', parsePart json request malformed malformedData malformedFile parsed (inlineData c) = .ok (parsed.content c') ∧
      SameMedia c c' := by
  obtain ⟨htype, hbytes, hmedia⟩ : c.type ≠ .text ∧ c.bytes ≠ [] ∧ c.mediaType ≠ "" := by
    have hvalid := c.valid
    rw [hsource] at hvalid
    cases htype : c.type <;> simp_all [Content.wellFormed]
  have hcheck : checkPart malformed (inlineData c) = .ok () := by
    apply checkPart_payload (by decide) (fun h => absurd h (by decide)) ?_ rfl rfl
    apply checkData_strings (JsonValue.find?_ofMembers ..) rfl
    intro field _ v hv
    apply isString_of_members ?_ hv
    simp [JsonValue.isString]
  obtain ⟨c', hc', htype', hbytes', hmedia'⟩ := parseInlineData_of malformedData
    (JsonValue.find?_ofMembers "mimeType" [("mimeType", .string c.mediaType), ("data", .string (base64Encode c.bytes))])
    (JsonValue.find?_ofMembers ..) hbytes hmedia
  refine ⟨c', ?_, sameText_of_ne htype htype', fun _ => ⟨hbytes', hmedia'⟩, fun hurl => ?_⟩
  · unfold parsePart
    rw [hcheck, ok_bind]
    exact congrArg (fun read => read >>= fun c => Except.ok (parsed.content c)) hc'
  · rw [hsource] at hurl
    cases hurl

theorem parsePart_fileData {c : Content} (hsource : c.source = .url) (parsed : Parsed) :
    ∃ c', parsePart json request malformed malformedData malformedFile parsed (fileData c) = .ok (parsed.content c') ∧
      SameMedia c c' := by
  obtain ⟨htype, hurl⟩ : c.type ≠ .text ∧ c.url ≠ "" := by
    have hvalid := c.valid
    rw [hsource] at hvalid
    cases htype : c.type <;> simp_all [Content.wellFormed]
  obtain ⟨data, hpart, huri, hmime, hstrings⟩ : ∃ data, fileData c = .ofMembers [("fileData", data)] ∧
      data.find? "fileUri" = some (.string c.url) ∧ data.stringField "mimeType" = c.mediaType ∧
      ∀ field v, data.find? field = some v → v.isString = true := by
    refine ⟨_, rfl, ?_, ?_, ?_⟩
    · rw [find?_setIfSome_ne (by decide)]
      exact JsonValue.find?_ofMembers ..
    · unfold JsonValue.stringField
      rw [find?_setIfSome_self rfl]
      by_cases hmedia : c.mediaType = ""
      · rw [if_pos hmedia, hmedia]
        rfl
      · rw [if_neg hmedia]
        rfl
    · intro field v hv
      have huri : ∀ {v}, (JsonValue.ofMembers [("fileUri", .string c.url)]).find? field = some v → v.isString = true :=
        fun hv => isString_of_members (by simp [JsonValue.isString]) hv
      by_cases hmedia : c.mediaType = ""
      · rw [if_pos hmedia] at hv
        exact huri hv
      · rw [if_neg hmedia] at hv
        unfold setIfSome at hv
        rw [JsonValue.find?_set rfl] at hv
        by_cases hfield : "mimeType" = field
        · rw [if_pos hfield] at hv
          cases hv
          rfl
        · rw [if_neg hfield] at hv
          exact huri hv
  have hcheck : checkPart malformed (fileData c) = .ok () := by
    rw [hpart]
    apply checkPart_payload (by decide) (fun h => absurd h (by decide)) rfl ?_ rfl
    apply checkData_strings (JsonValue.find?_ofMembers ..) (JsonValue.isObject_of_find? huri)
    exact fun field _ => hstrings field
  obtain ⟨c', hc', htype', hurl', hmedia'⟩ := ofUrl_of_ne (mediaKind c.mediaType) hurl c.mediaType
    (mediaName data (mediaKind c.mediaType))
  refine ⟨c', ?_, sameText_of_ne htype htype', fun hbytes => ?_, fun _ => ⟨hurl', hmedia'⟩⟩
  · unfold parsePart
    rw [hcheck, ok_bind, hpart]
    have hread : parseFileData malformedFile data = .ok c' := by
      unfold parseFileData
      dsimp only
      rw [JsonValue.stringField_eq huri, hmime, if_neg hurl, hc']
    exact congrArg (fun read => read >>= fun c => Except.ok (parsed.content c)) hread
  · rw [hsource] at hbytes
    cases hbytes

theorem parsePart_call {native arguments : JsonValue} {id name : String} (hid : native.find? "id" = some (.string id))
    (hname : native.find? "name" = some (.string name)) (hargs : native.find? "args" = some arguments)
    (hid' : id ≠ "") (hname' : name ≠ "") (hobject : arguments.isObject = true) (parsed : Parsed) :
    parsePart json request malformed malformedData malformedFile parsed (.ofMembers [("functionCall", native)]) =
      .ok (parsed.call {
        id, name, arguments, rawArguments := json.dump arguments, argumentsValid := true
        providerMetadata := .ofMembers [("functionCall", native)] }) := by
  have hcheck : checkPart malformed (.ofMembers [("functionCall", native)]) = .ok () := by
    apply checkPart_payload (by decide) (fun h => absurd h (by decide)) rfl rfl
    unfold checkFunctionCall requireString throwIf
    rw [JsonValue.find?_ofMembers, OrdMap.find?_cons, if_pos rfl]
    dsimp only
    rw [checkMember_some hid (by rfl), hname, checkMember_some hargs hobject, JsonValue.isObject_of_find? hid]
    simp [hname', -bind_eq_ok]
  unfold parsePart
  rw [hcheck, ok_bind]
  have hparsed : parseFunctionCall json request parsed.calls.length (.ofMembers [("functionCall", native)]) native = {
      id, name, arguments, rawArguments := json.dump arguments, argumentsValid := true
      providerMetadata := .ofMembers [("functionCall", native)] } := by
    unfold parseFunctionCall
    dsimp only
    rw [JsonValue.stringField_eq hid, JsonValue.stringField_eq hname, hargs, if_neg hid']
    rfl
  exact congrArg (fun call => Except.ok (parsed.call call)) hparsed

theorem functionCall_same {call : ToolCall} (hcall : call.Readable json)
    (hforeign : call.providerMetadata.contains "functionCall" = false) (parsed : Parsed) :
    ∃ call', parsePart json request malformed malformedData malformedFile parsed (functionCall call) =
      .ok (parsed.call call') ∧ call.Same call' := by
  unfold functionCall setIfSome
  rw [if_neg (by simp [hforeign]), if_neg hcall.id]
  refine ⟨_, parsePart_call ?_ ?_ ?_ hcall.id hcall.name hcall.object parsed, rfl, rfl, rfl, rfl⟩
  · rw [JsonValue.find?_set rfl, if_pos rfl]
  · rw [JsonValue.find?_set_ne (by decide), JsonValue.find?_ofMembers]
    rfl
  · rw [JsonValue.find?_set_ne (by decide), JsonValue.find?_ofMembers]
    rfl

theorem part_same {c : Content} {p : JsonValue} (hforeign : c.provider ≠ "gemini") (h : part c = .ok p)
    (parsed : Parsed) :
    ∃ c', parsePart json request malformed malformedData malformedFile parsed p = .ok (parsed.content c') ∧
      SameMedia c c' := by
  unfold part at h
  split at h
  · next htype hsource =>
    cases h
    refine ⟨.text c.value, parsePart_text c.value parsed, sameText_text htype, ?_, ?_⟩
    · intro hbytes
      rw [hsource] at hbytes
      cases hbytes
    · intro hurl
      rw [hsource] at hurl
      cases hurl
  · next _ hsource =>
    cases h
    exact parsePart_inlineData hsource parsed
  · next _ hsource =>
    cases h
    exact parsePart_inlineData hsource parsed
  · next _ hsource =>
    cases h
    exact parsePart_inlineData hsource parsed
  · next _ hsource =>
    split at h
    · cases h
      exact parsePart_fileData hsource parsed
    · cases h
  · next _ hsource =>
    split at h
    · cases h
      exact parsePart_fileData hsource parsed
    · cases h
  · next _ hsource =>
    split at h
    · cases h
      exact parsePart_fileData hsource parsed
    · cases h
  · rw [if_neg hforeign] at h
    cases h
  · cases h

def candidate (content : JsonValue) : JsonValue := .ofMembers [("content", content), ("finishReason", .string "STOP")]

def answering (content : JsonValue) : JsonValue := .ofMembers [("candidates", .array [candidate content])]

theorem parseCandidate_answering (content : JsonValue) (promptBlocked : Bool) :
    parseCandidate malformed (answering content) promptBlocked = .ok (some (candidate content)) := rfl

theorem parseContent_of {candidate content : JsonValue} (h : candidate.find? "content" = some content)
    (hobject : content.isObject = true) : parseContent malformed candidate = .ok content := by
  unfold parseContent
  rw [h]
  cases content with
  | object m => rfl
  | _ => cases hobject

theorem parseParts_of {content : JsonValue} {parts : List JsonValue} (h : content.find? "parts" = some (.array parts))
    (needsParts : Bool) : parseParts malformed content needsParts = .ok parts := by
  unfold parseParts
  rw [h]

theorem reread {m : Message} {turns : List JsonValue} {turn : JsonValue} {response : HttpResponse}
    (hrole : m.role = .assistant) (hnative : nativeContent m = none)
    (hforeign : ∀ c ∈ m.contents, c.provider ≠ "gemini")
    (hcalls : ∀ call ∈ m.toolCalls, call.Readable json ∧ call.providerMetadata.contains "functionCall" = false)
    (h : appendHistory json turns m = .ok (turns ++ [turn])) (hstatus : successfulStatus response.status = true)
    (hbody : json.parse response.body = some (answering turn)) :
    ∃ r, parseResponse json request response = .ok r ∧ m.Same SameMedia r.message := by
  unfold appendHistory at h
  rw [hrole, hnative] at h
  simp only [bind_eq_ok, pure_eq_ok, Except.ok.injEq] at h
  obtain ⟨encoded, hparts, hturn⟩ := h
  have hturn : turn = NeuralPlus.turn "parts" "model" (encoded ++ m.toolCalls.map functionCall) :=
    appendTurn_new hturn
  obtain ⟨requestId, hresponse⟩ :=
    responseBody_of_parse .gemini "x-request-id" "responseId" (httpError json response) hstatus hbody rfl
  obtain ⟨contents, calls, hcontents, hsame, hread⟩ := foldlM_same
    (fun c part hc => part_same (hforeign c hc.1) hc.2)
    (fun call part hcall parsed => by
      rw [hcall.2]
      exact functionCall_same (hcalls call hcall.1).1 (hcalls call hcall.1).2 parsed) hparts
  have hblocks : turn.find? "parts" = some (.array (encoded ++ m.toolCalls.map functionCall)) := by
    rw [hturn]
    exact find?_turn (by decide) ..
  unfold parseResponse
  rw [hresponse, ok_bind]
  dsimp only
  rw [parseCandidate_answering, ok_bind, Option.getD_some, parseContent_of (JsonValue.find?_ofMembers ..)
    (JsonValue.isObject_of_find? hblocks), ok_bind, parseParts_of hblocks, ok_bind, hread]
  exact ⟨_, rfl, hrole.symm, hcontents, hsame⟩

end GeminiClient

/-! ## OpenAI-compatible -/

namespace CompatibleClient
variable {json : JsonText} {request : AIRequest} (malformed : String → Exc)

theorem parsePart_other {part : JsonValue} {type : String} (htype : part.find? "type" = some (.string type))
    (htext : type ≠ "text") (himage : type ≠ "image_url") :
    ∃ c', parsePart malformed part = .ok c' ∧ c'.type ≠ .text := by
  have hobject := JsonValue.isObject_of_find? htype
  obtain ⟨c', hc', htype'⟩ := extension_of_isObject (show "openai_compatible" ≠ "" by decide) hobject
  refine ⟨c', ?_, htype'⟩
  unfold parsePart checkMember throwIf
  rw [JsonValue.stringField_eq htype, htype, hobject, hc']
  simp [JsonValue.isString, htext, himage, -bind_eq_ok]

theorem parsePart_imageUrl (c : Content) {url : String} (hurl : url ≠ "") :
    ∃ c', parsePart malformed (imageUrl c url) = .ok c' ∧ c'.type ≠ .text := by
  obtain ⟨c', hc', htype', _⟩ := ofUrl_of_ne .image hurl "" ""
  refine ⟨c', ?_, htype'⟩
  have hread : parseImageUrl malformed (imageUrl c url) = .ok c' := by
    obtain ⟨image, hfind, himage⟩ : ∃ image, (imageUrl c url).find? "image_url" = some image ∧
        image.find? "url" = some (.string url) := by
      refine ⟨_, JsonValue.find?_ofMembers .., ?_⟩
      rw [find?_setIfSome_ne (by decide)]
      exact JsonValue.find?_ofMembers ..
    unfold parseImageUrl
    rw [hfind]
    cases image with
    | object members =>
      unfold requireString throwIf
      dsimp only
      rw [himage]
      dsimp only
      rw [ok_bind, if_neg hurl, ok_bind]
      exact hc'
    | _ => cases himage
  have htype : (imageUrl c url).find? "type" = some (.string "image_url") := JsonValue.find?_ofMembers ..
  unfold parsePart throwIf
  rw [checkMember_some htype rfl, JsonValue.stringField_eq htype, hread]
  rfl

theorem contentPart_same {c : Content} {part : JsonValue} (hforeign : c.provider ≠ "openai_compatible")
    (h : contentPart c = .ok part) : ∃ c', parsePart malformed part = .ok c' ∧ SameText c c' := by
  have hmedia : c.type ≠ .text → (∃ c', parsePart malformed part = .ok c' ∧ c'.type ≠ .text) →
      ∃ c', parsePart malformed part = .ok c' ∧ SameText c c' := by
    rintro hc ⟨c', hc', htype'⟩
    exact ⟨c', hc', sameText_of_ne hc htype'⟩
  unfold contentPart at h
  split at h
  · next htype _ =>
    cases h
    refine ⟨.text c.value, ?_, sameText_text htype⟩
    unfold parsePart checkMember JsonValue.stringField requireString throwIf
    simp [OrdMap.find?_cons, JsonValue.isString, -bind_eq_ok]
  · next htype hsource =>
    cases h
    apply hmedia (by simp [htype])
    apply parsePart_imageUrl
    have hvalid := c.valid
    rw [htype, hsource] at hvalid
    simp_all [Content.wellFormed]
  · next htype _ =>
    cases h
    apply hmedia (by simp [htype])
    apply parsePart_imageUrl
    simp [dataUrl]
  · next htype _ =>
    simp only [bind_eq_ok, pure_eq_ok, Except.ok.injEq] at h
    obtain ⟨format, _, rfl⟩ := h
    apply hmedia (by simp [htype])
    exact parsePart_other malformed (JsonValue.find?_ofMembers ..) (by decide) (by decide)
  · next htype _ =>
    cases h
    apply hmedia (by simp [htype])
    exact parsePart_other malformed (JsonValue.find?_ofMembers ..) (by decide) (by decide)
  · rw [if_neg hforeign] at h
    cases h
  · cases h

theorem messageContent_same {m : Message} {content entry : JsonValue}
    (hforeign : ∀ c ∈ m.contents, c.provider ≠ "openai_compatible") (h : messageContent m = .ok content)
    (hentry : entry.find? "content" = some content) :
    ∃ contents, parseContents malformed entry = .ok contents ∧ List.Forall₂ SameText m.contents contents := by
  have hparts : contentParts m = .ok content →
      ∃ contents, parseContents malformed entry = .ok contents ∧ List.Forall₂ SameText m.contents contents := by
    intro h
    unfold contentParts at h
    simp only [bind_eq_ok, pure_eq_ok, Except.ok.injEq] at h
    obtain ⟨parts, hparts, rfl⟩ := h
    have hencoded := (List.forall₂_and_left m.contents parts).mpr ⟨hforeign, mapM_eq_ok hparts⟩
    obtain ⟨contents, hsame, hread⟩ := mapM_decodes (fun c part hc => contentPart_same malformed hc.1 hc.2) hencoded
    refine ⟨contents, ?_, hsame⟩
    unfold parseContents
    rw [hentry]
    exact hread
  unfold messageContent at h
  split at h
  · next c hcontents =>
    by_cases htext : c.type = .text ∧ c.source = .value
    · rw [if_pos htext] at h
      cases h
      refine ⟨[.text c.value], ?_, ?_⟩
      · unfold parseContents
        rw [hentry]
      · rw [hcontents]
        exact .cons (sameText_text htext.1) .nil
    · rw [if_neg htext] at h
      exact hparts h
  · exact hparts h

theorem toolCallEntry_same (unsupported : String → Exc) {call : ToolCall} (hcall : call.Readable json) :
    ∃ call', parseToolCall json malformed unsupported (toolCallEntry call) = .ok call' ∧ call.Same call' := by
  refine ⟨makeCall json call.id call.name call.rawArguments (toolCallEntry call), ?_, rfl, rfl, ?_, ?_⟩
  · obtain ⟨function, hfunction, hname, hraw⟩ : ∃ function,
        (toolCallEntry call).find? "function" = some (.object function) ∧
        (JsonValue.object function).find? "name" = some (.string call.name) ∧
        (JsonValue.object function).find? "arguments" = some (.string call.rawArguments) := by
      refine ⟨_, JsonValue.find?_ofMembers .., ?_, ?_⟩
      · exact JsonValue.find?_ofMembers ..
      · exact JsonValue.find?_ofMembers ..
    have hid : (toolCallEntry call).find? "id" = some (.string call.id) := JsonValue.find?_ofMembers ..
    have htype : (toolCallEntry call).find? "type" = some (.string "function") := JsonValue.find?_ofMembers ..
    unfold parseToolCall parseFunction requireString throwIf
    dsimp only
    rw [hid, htype, hfunction, JsonValue.isObject_of_find? hid]
    dsimp only
    rw [hname, hraw]
    simp [hcall.id, hcall.name, -bind_eq_ok]
  · unfold makeCall parseToolArguments
    rw [hcall.raw]
  · unfold makeCall parseToolArguments
    rw [hcall.raw]

def choice (entry : JsonValue) : JsonValue := .ofMembers [("finish_reason", .string "stop"), ("message", entry)]

def answering (entry : JsonValue) : JsonValue := .ofMembers [("choices", .array [choice entry])]

theorem parseChoice_answering (entry : JsonValue) : parseChoice malformed (answering entry) = .ok (choice entry) := rfl

theorem parseMessage_of {choice entry : JsonValue} (h : choice.find? "message" = some entry)
    (hobject : entry.isObject = true) : parseMessage malformed choice = .ok entry := by
  unfold parseMessage
  rw [h]
  cases entry with
  | object m => rfl
  | _ => cases hobject

theorem parseToolCalls_same (unsupported : String → Exc) (entry : JsonValue) {calls : List ToolCall}
    (hcalls : ∀ call ∈ calls, call.Readable json) (hkey : entry.acceptsKey = true)
    (hentry : entry.find? "tool_calls" = none) :
    ∃ calls', parseToolCalls json malformed unsupported (withToolCalls entry calls) = .ok calls' ∧
      List.Forall₂ ToolCall.Same calls calls' := by
  unfold withToolCalls parseToolCalls
  by_cases hnone : calls = []
  · rw [if_pos hnone, hentry, hnone]
    exact ⟨[], rfl, .nil⟩
  · rw [if_neg hnone]
    have hencoded : List.Forall₂ (fun call part => call.Readable json ∧ part = toolCallEntry call) calls
        (calls.map toolCallEntry) := by
      rw [List.forall₂_map_right_iff, List.forall₂_same]
      exact fun call hmem => ⟨hcalls call hmem, rfl⟩
    have hcall : ∀ call part, call.Readable json ∧ part = toolCallEntry call →
        ∃ call', parseToolCall json malformed unsupported part = .ok call' ∧ call.Same call' := by
      rintro call part ⟨hcall, rfl⟩
      exact toolCallEntry_same malformed unsupported hcall
    obtain ⟨calls', hsame, hread⟩ := mapM_decodes hcall hencoded
    refine ⟨calls', ?_, hsame⟩
    rw [JsonValue.find?_set hkey, if_pos rfl]
    exact hread

theorem reread {m : Message} {entries : List JsonValue} {entry : JsonValue} {response : HttpResponse}
    (hrole : m.role = .assistant) (hnative : nativeMessage m = none)
    (hforeign : ∀ c ∈ m.contents, c.provider ≠ "openai_compatible") (hcalls : ∀ call ∈ m.toolCalls, call.Readable json)
    (h : appendHistory entries m = .ok (entries ++ [entry])) (hstatus : successfulStatus response.status = true)
    (hbody : json.parse response.body = some (answering entry)) :
    ∃ r, parseResponse json request response = .ok r ∧ m.Same SameText r.message := by
  unfold appendHistory roleMessage at h
  rw [hrole, hnative] at h
  simp only [bind_eq_ok, pure_eq_ok, Except.ok.injEq] at h
  obtain ⟨_, ⟨content, hcontent, rfl⟩, hentry⟩ := h
  have hentry : entry = withToolCalls (.ofMembers [("role", .string "assistant"), ("content", content)]) m.toolCalls :=
    (List.cons.inj (List.append_cancel_left hentry)).1.symm
  have hfind : ∀ {key : String}, "tool_calls" ≠ key → entry.find? key =
      (JsonValue.ofMembers [("role", .string "assistant"), ("content", content)]).find? key := by
    intro key hkey
    rw [hentry]
    unfold withToolCalls
    split
    · rfl
    · exact JsonValue.find?_set_ne hkey _ _
  have hassistant : entry.find? "role" = some (.string "assistant") := (hfind (by decide)).trans (find?_role ..)
  have hobject : entry.isObject = true := JsonValue.isObject_of_find? hassistant
  obtain ⟨requestId, hresponse⟩ :=
    responseBody_of_parse .openaiCompatible "x-request-id" "id" (httpError json response) hstatus hbody rfl
  obtain ⟨contents, hread, hcontents⟩ := messageContent_same (malformedResponse .openaiCompatible response requestId)
    hforeign hcontent ((hfind (by decide)).trans (JsonValue.find?_ofMembers ..))
  obtain ⟨calls, hreads, hsame⟩ := parseToolCalls_same (malformedResponse .openaiCompatible response requestId)
    (fun type => .provider ("OpenAI-compatible tool call type is not supported: " ++ type) .openaiCompatible
      response.status "unsupported_tool_call" requestId)
    (.ofMembers [("role", .string "assistant"), ("content", content)]) hcalls rfl (JsonValue.find?_ofMembers ..)
  rw [← hentry] at hreads
  have hlegacy : entry.find? "function_call" = none := (hfind (by decide)).trans (JsonValue.find?_ofMembers ..)
  have hrefusal : withRefusal entry contents = contents := by
    unfold withRefusal
    rw [(hfind (by decide)).trans (JsonValue.find?_ofMembers ..)]
    cases contents <;> rfl
  have haudio : entry.find? "audio" = none := (hfind (by decide)).trans (JsonValue.find?_ofMembers ..)
  unfold parseResponse
  rw [hresponse, ok_bind]
  dsimp only
  rw [parseChoice_answering, ok_bind, parseMessage_of _ (JsonValue.find?_ofMembers ..) hobject, ok_bind, hread, ok_bind,
    hreads, ok_bind]
  unfold withLegacyCall withAudio
  rw [hlegacy, hrefusal, haudio]
  exact ⟨_, rfl, hrole.symm, hcontents, hsame⟩

end CompatibleClient

/-! ## Any of the three -/

def Adapter.answering : Adapter → JsonValue → JsonValue
  | gemini _, turn => GeminiClient.answering turn
  | compatible _, entry => CompatibleClient.answering entry
  | _, turn => turn

theorem Message.Same.text {m m' : Message} (h : m.Same SameText m') : m'.text = m.text := by
  rw [Message.text_eq, Message.text_eq, text_of_sameText h.contents]

theorem Message.Same.mono {R : Content → Content → Prop} {m m' : Message} (h : m.Same R m')
    (hR : ∀ c c', R c c' → SameText c c') : m.Same SameText m' :=
  ⟨h.role, h.contents.imp hR, h.calls⟩

theorem nativeMember_of_ne {m : Message} (provider key : String)
    (h : m.providerMetadata.stringField "provider" ≠ provider) : nativeMember m provider key = none := if_neg h

/-- Whoever wrote an assistant message, a provider that can encode it is told its text and its calls: sent back,
they read as they were. For Gemini the media come back too. -/
theorem foreign_message_reread (json : JsonText) (adapter : Adapter) (request : AIRequest) {m : Message}
    {history : List JsonValue} {written : JsonValue} {response : HttpResponse} (hopenai : adapter.provider ≠ .openai)
    (hrole : m.role = .assistant) (hforeign : m.providerMetadata.stringField "provider" ≠ adapter.tag)
    (hcontents : ∀ c ∈ m.contents, c.provider ≠ adapter.tag) (hcalls : ∀ call ∈ m.toolCalls, call.Readable json)
    (hgemini : adapter.provider = .gemini →
      ∀ call ∈ m.toolCalls, call.providerMetadata.contains "functionCall" = false)
    (h : adapter.appendHistory json history m = .ok (history ++ [written]))
    (hstatus : successfulStatus response.status = true)
    (hbody : json.parse response.body = some (adapter.answering written)) :
    ∃ r, adapter.parseResponse json request response = .ok r ∧ m.Same SameText r.message ∧
      r.message.text = m.text ∧
      (adapter.provider = .gemini → List.Forall₂ SameMedia m.contents r.message.contents) := by
  cases adapter with
  | openai impl => exact absurd rfl hopenai
  | anthropic impl =>
    have hnative : AnthropicClient.nativeContent m = none := by
      unfold AnthropicClient.nativeContent
      rw [nativeMember_of_ne "anthropic" "content" hforeign]
    obtain ⟨r, hr, hsame⟩ := AnthropicClient.reread hrole hnative hcontents hcalls h hstatus hbody
    exact ⟨r, hr, hsame, hsame.text, nofun⟩
  | gemini impl =>
    have hnative : GeminiClient.nativeContent m = none := by
      unfold GeminiClient.nativeContent
      rw [nativeMember_of_ne "gemini" "content" hforeign]
    obtain ⟨r, hr, hsame⟩ := GeminiClient.reread hrole hnative hcontents
      (fun call hmem => ⟨hcalls call hmem, hgemini rfl call hmem⟩) h hstatus hbody
    have htext := hsame.mono fun _ _ => SameMedia.text
    exact ⟨r, hr, htext, htext.text, fun _ => hsame.contents⟩
  | compatible impl =>
    have hnative : CompatibleClient.nativeMessage m = none := by
      unfold CompatibleClient.nativeMessage
      rw [nativeMember_of_ne "openai_compatible" "message" hforeign]
    obtain ⟨r, hr, hsame⟩ := CompatibleClient.reread hrole hnative hcontents hcalls h hstatus hbody
    exact ⟨r, hr, hsame, hsame.text, nofun⟩

def visitedAdapter : Adapter :=
  .gemini { config := { model := { provider := .gemini, id := "model" } }, endpoint := "", apiKey := "key", valid := rfl }

def pngContent : Content :=
  { type := .image, source := .bytes, bytes := [0x89, 0x50, 0x4E, 0x47], mediaType := "image/png", valid := by decide }

def visitingMessage : Message :=
  (Message.assistant [.text "Here it is.", pngContent] [{ id := "c1", name := "weather" }]).setProviderMetadata
    (nativeMetadata "openai" "output" (.array []))

def visitingTurn : JsonValue :=
  ((visitedAdapter.appendHistory (fixedText .null) [] visitingMessage).toOption.bind List.head?).getD .null

def visitingText : JsonText :=
  { parse := fun s => if s = "\x7b\x7d" then some .emptyObject else some (visitedAdapter.answering visitingTurn)
    dump := fun _ => "" }

theorem foreign_message_reread_visiting : ∃ r,
    visitedAdapter.parseResponse visitingText sampleRequest { status := 200, body := "reply" } = .ok r ∧
      visitingMessage.Same SameText r.message ∧ r.message.text = visitingMessage.text ∧
      (visitedAdapter.provider = .gemini → List.Forall₂ SameMedia visitingMessage.contents r.message.contents) := by
  have hcalls : ∀ call ∈ visitingMessage.toolCalls, call.Readable visitingText := by
    intro call hmem
    rw [List.mem_singleton.mp hmem]
    exact ⟨by decide, by decide, rfl, rfl⟩
  have hgemini : ∀ call ∈ visitingMessage.toolCalls, call.providerMetadata.contains "functionCall" = false := by
    intro call hmem
    rw [List.mem_singleton.mp hmem]
    rfl
  have h : visitedAdapter.appendHistory visitingText [] visitingMessage = .ok ([] ++ [visitingTurn]) := rfl
  exact foreign_message_reread visitingText visitedAdapter sampleRequest (by decide) rfl (by decide) (by decide) hcalls
    (fun _ => hgemini) h rfl rfl

end NeuralPlus
