import NeuralPlus.ParserSound

/-!
# The ids the adapters make up

Gemini calls may come without an id and the legacy `function_call` has none, so
the adapters make one from the run id, the number of messages of the request
and the index of the call. A run id is taken once, every round appends to the
transcript, and the three numbers can be read back from the text.
-/

namespace NeuralPlus

open Fallible Emission

/-! ## Numbers in a text -/

theorem split_inj {α : Type} {sep : α} {rest rest' : List α} : ∀ {digits digits' : List α}, sep ∉ digits →
    sep ∉ digits' → digits ++ sep :: rest = digits' ++ sep :: rest' → digits = digits' ∧ rest = rest'
  | [], [], _, _, h => ⟨rfl, (List.cons.inj h).2⟩
  | [], d' :: _, _, h', h => absurd (List.mem_cons.mpr (.inl (List.cons.inj h).1)) h'
  | d :: _, [], h, _, heq => absurd (List.mem_cons.mpr (.inl (List.cons.inj heq).1.symm)) h
  | d :: digits, d' :: digits', h, h', heq => by
    obtain ⟨hhead, htail⟩ := List.cons.inj heq
    rw [List.mem_cons, not_or] at h h'
    obtain ⟨hdigits, hrest⟩ := split_inj h.2 h'.2 htail
    exact ⟨by rw [hhead, hdigits], hrest⟩

theorem digits_inj {m n : Nat} (h : Nat.toDigits 10 m = Nat.toDigits 10 n) : m = n := by
  have hread := congrArg (fun digits => Nat.ofDigitChars 10 digits 0) h
  simpa only [Nat.ofDigitChars_ten_toDigits] using hread

theorem number_inj {m n : Nat} {rest rest' : List Char}
    (h : Nat.toDigits 10 m ++ '_' :: rest = Nat.toDigits 10 n ++ '_' :: rest') : m = n ∧ rest = rest' := by
  obtain ⟨hdigits, hrest⟩ := split_inj Nat.underscore_not_in_toDigits Nat.underscore_not_in_toDigits h
  exact ⟨digits_inj hdigits, hrest⟩

/-! ## Where an id is made -/

structure IdOrigin where
  run : Nat
  messages : Nat
  callIndex : Option Nat

def runId (run : Nat) : String := "run-" ++ toString run

def IdOrigin.id (origin : IdOrigin) : String :=
  match origin.callIndex with
  | none => "legacy_function_call_" ++ runId origin.run ++ "_" ++ toString origin.messages
  | some callIndex =>
    "gemini_call_" ++ runId origin.run ++ "_" ++ toString origin.messages ++ "_" ++ toString callIndex

example : (IdOrigin.mk 3 1 (some 0)).id = "gemini_call_run-3_1_0" := by decide +kernel

theorem IdOrigin.toList_legacy (run messages : Nat) : (IdOrigin.mk run messages none).id.toList =
    "legacy_function_call_run-".toList ++ (Nat.toDigits 10 run ++ '_' :: Nat.toDigits 10 messages) := by
  simp [IdOrigin.id, runId, String.toList_append, List.append_assoc]

theorem IdOrigin.toList_gemini (run messages callIndex : Nat) : (IdOrigin.mk run messages (some callIndex)).id.toList =
    "gemini_call_run-".toList ++
      (Nat.toDigits 10 run ++ '_' :: (Nat.toDigits 10 messages ++ '_' :: Nat.toDigits 10 callIndex)) := by
  simp [IdOrigin.id, runId, String.toList_append, List.append_assoc]

/-- **The text of an id tells its origin.** -/
theorem IdOrigin.id_injective : Function.Injective IdOrigin.id := by
  intro a b h
  have hchars := congrArg String.toList h
  obtain ⟨run, messages, callIndex⟩ := a
  obtain ⟨run', messages', callIndex'⟩ := b
  cases callIndex with
  | none =>
    cases callIndex' with
    | none =>
      rw [toList_legacy, toList_legacy] at hchars
      obtain ⟨hrun, hmessages⟩ := number_inj (List.append_cancel_left hchars)
      rw [hrun, digits_inj hmessages]
    | some k' =>
      rw [toList_legacy, toList_gemini] at hchars
      cases (List.cons.inj hchars).1
  | some k =>
    cases callIndex' with
    | none =>
      rw [toList_legacy, toList_gemini] at hchars
      cases (List.cons.inj hchars).1
    | some k' =>
      rw [toList_gemini, toList_gemini] at hchars
      obtain ⟨hrun, hrest⟩ := number_inj (List.append_cancel_left hchars)
      obtain ⟨hmessages, hindex⟩ := number_inj hrest
      rw [hrun, hmessages, digits_inj hindex]

/-! ## The ids of a response -/

/-- The ids of the parts that are calls without one; the index counts all calls. -/
def GeminiClient.partIds (request : AIRequest) (parts : List JsonValue) : List String :=
  ((parts.filter isCallPart).zipIdx.filter fun x => (x.1.member "functionCall").stringField "id" = "").map fun x =>
    syntheticId request x.2

/-- Also the ids of parts behind one that the parser rejects. -/
def GeminiClient.createdIds (request : AIRequest) (body : JsonValue) : List String :=
  partIds request (arrayMember (candidateContent body) "parts")

def CompatibleClient.createdIds (request : AIRequest) (body : JsonValue) : List String :=
  let native := choiceMessage body
  if arrayMember native "tool_calls" = [] ∧ (native.member "function_call").isObject then [legacyId request] else []

namespace Adapter

def bodyIds (request : AIRequest) (body : JsonValue) : Adapter → List String
  | openai _ | anthropic _ => []
  | gemini _ => GeminiClient.createdIds request body
  | compatible _ => CompatibleClient.createdIds request body

variable (json : JsonText) (send : HttpRequest → Except Exc HttpResponse)

def received (request : AIRequest) (adapter : Adapter) : Except Exc HttpResponse := do
  let body ← adapter.makeRequest json request
  return redactSensitiveResponse json adapter.secrets (← send (adapter.httpRequest json body))

def createdIds (request : AIRequest) (adapter : Adapter) : List String :=
  match adapter.received json send request with
  | .error _ => []
  | .ok response => ((json.parse response.body).map fun body => adapter.bodyIds request body).getD []

end Adapter

theorem GeminiClient.syntheticId_injective (request : AIRequest) : Function.Injective (syntheticId request) := by
  intro k k' h
  have hindex := congrArg String.toList ((String.append_right_inj _).mp h)
  rw [Nat.toString_eq_repr, Nat.toString_eq_repr, Nat.toList_repr, Nat.toList_repr] at hindex
  exact digits_inj hindex

theorem GeminiClient.createdIds_nodup (request : AIRequest) (body : JsonValue) : (createdIds request body).Nodup := by
  unfold createdIds partIds
  generalize (arrayMember (candidateContent body) "parts").filter isCallPart = calls
  have hpositions : (calls.zipIdx.map Prod.snd).Nodup := by
    rw [List.zipIdx_map_snd]
    exact List.nodup_range' _
  have hids := hpositions.map (syntheticId_injective request)
  rw [List.map_map] at hids
  apply List.Nodup.sublist _ hids
  exact List.filter_sublist.map _

theorem CompatibleClient.createdIds_nodup (request : AIRequest) (body : JsonValue) :
    (createdIds request body).Nodup := by
  unfold createdIds
  dsimp only
  split
  · exact List.nodup_singleton _
  · exact List.nodup_nil

theorem Adapter.bodyIds_nodup (request : AIRequest) (body : JsonValue) (adapter : Adapter) :
    (adapter.bodyIds request body).Nodup := by
  cases adapter with
  | openai impl => exact List.nodup_nil
  | anthropic impl => exact List.nodup_nil
  | gemini impl => exact GeminiClient.createdIds_nodup request body
  | compatible impl => exact CompatibleClient.createdIds_nodup request body

theorem Adapter.bodyIds_mem {request : AIRequest} {run : Nat} (hrun : request.runId = runId run) {body : JsonValue}
    {adapter : Adapter} {id : String} (h : id ∈ adapter.bodyIds request body) :
    ∃ callIndex, id = (IdOrigin.mk run request.messages.length callIndex).id := by
  cases adapter with
  | openai impl => cases h
  | anthropic impl => cases h
  | gemini impl =>
    obtain ⟨x, _, rfl⟩ := List.mem_map.mp h
    refine ⟨some x.2, ?_⟩
    unfold GeminiClient.syntheticId IdOrigin.id
    rw [hrun]
  | compatible impl =>
    simp only [bodyIds, CompatibleClient.createdIds] at h
    split at h
    · refine ⟨none, ?_⟩
      rw [List.mem_singleton.mp h]
      unfold CompatibleClient.legacyId IdOrigin.id
      rw [hrun]
    · cases h

section
variable {json : JsonText} {send : HttpRequest → Except Exc HttpResponse} {request : AIRequest} {adapter : Adapter}

theorem Adapter.createdIds_of_body {response : HttpResponse} {body : JsonValue}
    (hr : adapter.received json send request = .ok response) (hb : json.parse response.body = some body) :
    adapter.createdIds json send request = adapter.bodyIds request body := by
  unfold createdIds
  rw [hr]
  dsimp only
  rw [hb]
  rfl

theorem Adapter.createdIds_cases (json : JsonText) (send : HttpRequest → Except Exc HttpResponse) (request : AIRequest)
    (adapter : Adapter) : adapter.createdIds json send request = [] ∨
    ∃ body, adapter.createdIds json send request = adapter.bodyIds request body := by
  cases hr : adapter.received json send request with
  | error e =>
    refine .inl ?_
    unfold createdIds
    rw [hr]
  | ok response =>
    cases hb : json.parse response.body with
    | none =>
      refine .inl ?_
      unfold createdIds
      rw [hr]
      dsimp only
      rw [hb]
      rfl
    | some body => exact .inr ⟨body, createdIds_of_body hr hb⟩

theorem Adapter.createdIds_nodup : (adapter.createdIds json send request).Nodup := by
  obtain h | ⟨body, h⟩ := createdIds_cases json send request adapter
  · rw [h]
    exact List.nodup_nil
  · rw [h]
    exact bodyIds_nodup request body adapter

theorem Adapter.createdIds_mem {run : Nat} (hrun : request.runId = runId run) {id : String}
    (hid : id ∈ adapter.createdIds json send request) :
    ∃ callIndex, id = (IdOrigin.mk run request.messages.length callIndex).id := by
  obtain h | ⟨body, h⟩ := createdIds_cases json send request adapter
  · rw [h] at hid
    cases hid
  · rw [h] at hid
    exact bodyIds_mem hrun hid

end

/-! ## The rounds of a run -/

namespace AIClient

variable {client : AIClient} {env : RunEnv} {options : GenerateOptions}

theorem requests_grow {opened : Session} {rounds : List Round} {last : Round}
    (h : History.Holds (fun before r => ∃ response, client.Completed env options opened before r response) rounds)
    (hlast : last.request = client.makeRequest env options (afterRounds opened rounds)) :
    (rounds ++ [last]).Pairwise fun a b => a.request.messages.length < b.request.messages.length := by
  induction rounds using List.reverseRecOn generalizing last with
  | nil => exact List.pairwise_singleton _ last
  | append_singleton rounds r ih =>
    obtain ⟨response, hc⟩ := h.last
    have hbefore := ih h.left hc.request
    have hr : r.request.messages.length < last.request.messages.length := by
      rw [hc.request, hlast, afterRounds_concat]
      simp [makeRequest, afterRound, hc.messages]
    rw [List.pairwise_append]
    refine ⟨hbefore, List.pairwise_singleton _ last, ?_⟩
    intro a ha b hb
    rw [List.mem_singleton.mp hb]
    rcases List.mem_append.mp ha with ha | ha
    · have har := (List.pairwise_append.mp hbefore).2.2 a ha r (List.mem_singleton_self r)
      exact har.trans hr
    · rwa [List.mem_singleton.mp ha]

theorem requests_runId {opened : Session} {rounds : List Round} {last : Round}
    (h : History.Holds (fun before r => ∃ response, client.Completed env options opened before r response) rounds)
    (hlast : last.request = client.makeRequest env options (afterRounds opened rounds)) :
    ∀ r ∈ rounds ++ [last], r.request.runId = env.runId := by
  intro r hr
  rcases List.mem_append.mp hr with hr | hr
  · obtain ⟨before, response, hc⟩ := h.exists_before hr
    rw [hc.request]
    rfl
  · rw [List.mem_singleton.mp hr, hlast]
    rfl

/-- **The requests of a generation carry its run id, and each has more messages than the one before.** -/
theorem generate_requests (client : AIClient) (env : RunEnv) (session : Session) (input : Message)
    (options : GenerateOptions) :
    (client.generate env session input options).log.rounds.Pairwise
      (fun a b => a.request.messages.length < b.request.messages.length) ∧
    ∀ r ∈ (client.generate env session input options).log.rounds, r.request.runId = env.runId := by
  cases generate_ended client env session input options with
  | refused _ _ _ hlog =>
    rw [hlog]
    exact ⟨List.Pairwise.nil, fun r hr => absurd hr List.not_mem_nil⟩
  | threw _ hs _ _ hlog _ =>
    have hrounds := Continued.completed hs.history
    have hlast := congrArg (client.makeRequest env options) hs.session
    rw [hlog]
    exact ⟨requests_grow hrounds hlast, requests_runId hrounds hlast⟩
  | returned _ hrounds hlast _ _ _ _ _ _ _ hlog _ =>
    have hrounds := Continued.completed hrounds
    rw [hlog]
    exact ⟨requests_grow hrounds hlast.request, requests_runId hrounds hlast.request⟩

end AIClient

/-! ## The runs of a process -/

/-- `make_run_id`: the id, and the counter after it. -/
def makeRunId (nextId : UInt64) : String × UInt64 := (runId nextId.toNat, nextId + 1)

structure BuiltInGeneration where
  client : BuiltInClient
  session : Session
  call : Call

namespace BuiltInGeneration

def admitted (g : BuiltInGeneration) : Bool := (g.client.base.begin g.session g.call.input g.call.options).isOk

def withRunId (g : BuiltInGeneration) (runId : String) : BuiltInGeneration := { g with call := { g.call with runId } }

variable (json : JsonText)

def createdIds (g : BuiltInGeneration) : List String :=
  (g.client.generate json g.session g.call).log.rounds.zipIdx.flatMap fun x =>
    g.client.adapter.createdIds json (g.call.send x.2) x.1.request

end BuiltInGeneration

/-- The calls of a process with their run ids, in the order in which they take them. -/
def started (nextId : UInt64) : List BuiltInGeneration → List BuiltInGeneration
  | [] => []
  | g :: gens =>
    if g.admitted then
      let (runId, nextId) := makeRunId nextId
      g.withRunId runId :: started nextId gens
    else g :: started nextId gens

section
variable {json : JsonText} {g : BuiltInGeneration} {run : Nat}

theorem BuiltInGeneration.createdIds_refused (h : g.admitted = false) : g.createdIds json = [] := by
  have hbegin : ∃ e, g.client.base.begin g.session g.call.input g.call.options = .error e := by
    unfold admitted at h
    cases hb : g.client.base.begin g.session g.call.input g.call.options with
    | error e => exact ⟨e, rfl⟩
    | ok leased =>
      rw [hb] at h
      cases h
  obtain ⟨e, he⟩ := hbegin
  unfold createdIds BuiltInClient.generate AIClient.generate
  rw [he]
  rfl

theorem BuiltInGeneration.request_runId {x : Round × Nat}
    (hx : x ∈ (g.client.generate json g.session g.call).log.rounds.zipIdx) : x.1.request.runId = g.call.runId := by
  have hround := List.mem_map_of_mem (f := Prod.fst) hx
  rw [List.zipIdx_map_fst] at hround
  exact (g.client.base.generate_requests (g.client.env json g.call) g.session g.call.input g.call.options).2 x.1 hround

theorem BuiltInGeneration.createdIds_mem (h : g.call.runId = runId run) {id : String} (hid : id ∈ g.createdIds json) :
    ∃ messages callIndex, id = (IdOrigin.mk run messages callIndex).id := by
  obtain ⟨x, hx, hid⟩ := List.mem_flatMap.mp hid
  obtain ⟨callIndex, heq⟩ := Adapter.createdIds_mem ((request_runId hx).trans h) hid
  exact ⟨_, callIndex, heq⟩

/-- **The ids of one run are distinct**, in each response and over the rounds. -/
theorem BuiltInGeneration.createdIds_nodup (h : g.call.runId = runId run) : (g.createdIds json).Nodup := by
  have hgrow := (g.client.base.generate_requests (g.client.env json g.call) g.session g.call.input g.call.options).1
  rw [← List.zipIdx_map_fst 0 (AIClient.generate _ _ _ _ _).log.rounds, List.pairwise_map] at hgrow
  unfold createdIds
  rw [List.nodup_flatMap]
  refine ⟨fun x _ => Adapter.createdIds_nodup, ?_⟩
  apply hgrow.imp_of_mem
  intro x y hx hy hlt id hidx hidy
  obtain ⟨k, hk⟩ := Adapter.createdIds_mem ((request_runId hx).trans h) hidx
  obtain ⟨k', hk'⟩ := Adapter.createdIds_mem ((request_runId hy).trans h) hidy
  have hsame := congrArg IdOrigin.messages (IdOrigin.id_injective (hk.symm.trans hk'))
  exact absurd hsame hlt.ne

end

theorem flatMap_started (json : JsonText) (n : Nat) (g : BuiltInGeneration) (gens : List BuiltInGeneration) :
    (started (.ofNat n) (g :: gens)).flatMap (BuiltInGeneration.createdIds json) =
      if g.admitted then (g.withRunId (runId (UInt64.ofNat n).toNat)).createdIds json ++
        (started (.ofNat (n + 1)) gens).flatMap (BuiltInGeneration.createdIds json)
      else (started (.ofNat n) gens).flatMap (BuiltInGeneration.createdIds json) := by
  rw [started]
  by_cases h : g.admitted = true
  · rw [if_pos h, if_pos h, UInt64.ofNat_add]
    rfl
  · rw [if_neg h, if_neg h, List.flatMap_cons, BuiltInGeneration.createdIds_refused (Bool.not_eq_true _ ▸ h)]
    rfl

theorem createdIds_origin {json : JsonText} {g : BuiltInGeneration} {n : Nat} (hn : n < 2 ^ 64) {id : String}
    (hid : id ∈ (g.withRunId (runId (UInt64.ofNat n).toNat)).createdIds json) :
    ∃ origin : IdOrigin, origin.run = n ∧ id = origin.id := by
  obtain ⟨messages, callIndex, heq⟩ := BuiltInGeneration.createdIds_mem rfl hid
  rw [UInt64.toNat_ofNat_of_lt' hn] at heq
  exact ⟨_, rfl, heq⟩

/-- Later runs have larger numbers, as long as the counter does not wrap. -/
theorem started_origin (json : JsonText) : ∀ (gens : List BuiltInGeneration) {n : Nat},
    n + gens.countP BuiltInGeneration.admitted ≤ 2 ^ 64 →
    ∀ id ∈ (started (.ofNat n) gens).flatMap (BuiltInGeneration.createdIds json),
      ∃ origin : IdOrigin, n ≤ origin.run ∧ id = origin.id
  | [], _, _, id, hid => by cases hid
  | g :: gens, n, hn, id, hid => by
    rw [flatMap_started] at hid
    by_cases h : g.admitted = true
    · rw [if_pos h] at hid
      rw [List.countP_cons_of_pos h] at hn
      rcases List.mem_append.mp hid with hid | hid
      · obtain ⟨origin, hrun, heq⟩ := createdIds_origin (by omega) hid
        exact ⟨origin, hrun.ge, heq⟩
      · obtain ⟨origin, hle, heq⟩ := started_origin json gens (by omega) id hid
        exact ⟨origin, by omega, heq⟩
    · rw [if_neg h] at hid
      rw [List.countP_cons_of_neg h] at hn
      exact started_origin json gens hn id hid

/-- **The ids of all runs are distinct.** -/
theorem started_nodup (json : JsonText) : ∀ (gens : List BuiltInGeneration) {n : Nat},
    n + gens.countP BuiltInGeneration.admitted ≤ 2 ^ 64 →
    ((started (.ofNat n) gens).flatMap (BuiltInGeneration.createdIds json)).Nodup
  | [], _, _ => List.nodup_nil
  | g :: gens, n, hn => by
    rw [flatMap_started]
    by_cases h : g.admitted = true
    · rw [if_pos h]
      rw [List.countP_cons_of_pos h] at hn
      apply List.nodup_append'.mpr
      refine ⟨BuiltInGeneration.createdIds_nodup rfl, started_nodup json gens (by omega), ?_⟩
      intro id hid hlater
      obtain ⟨origin, hrun, heq⟩ := createdIds_origin (by omega) hid
      obtain ⟨later, hle, heq'⟩ := started_origin json gens (by omega) id hlater
      rw [IdOrigin.id_injective (heq.symm.trans heq')] at hrun
      omega
    · rw [if_neg h]
      rw [List.countP_cons_of_neg h] at hn
      exact started_nodup json gens hn

/-! ## The other ids are the provider's -/

def Adapter.supplied (call : ToolCall) : Adapter → Bool
  | openai _ => call.providerMetadata.stringField "call_id" = call.id
  | anthropic _ | compatible _ => call.providerMetadata.stringField "id" = call.id
  | gemini _ => (call.providerMetadata.member "functionCall").stringField "id" = call.id

theorem OpenAIClient.supplied_all {json : JsonText} {impl : Impl} {response : HttpResponse} {r : AIResponse}
    (h : parseResponse json response = .ok r) :
    ∀ call ∈ r.message.toolCalls, (Adapter.openai impl).supplied call = true := by
  obtain ⟨_, _, _, _, _, hemitted, _⟩ := parseResponse_items h
  intro call hcall
  obtain ⟨n, item, _, cs, ks, hemits, hmem⟩ := hemitted.mem_right hcall
  cases hemits with
  | call _ _ _ =>
    rw [List.mem_singleton.mp hmem]
    exact decide_eq_true rfl
  | message _ _ _ => cases hmem
  | image _ _ => cases hmem
  | other _ _ => cases hmem

theorem AnthropicClient.supplied_all {json : JsonText} {impl : Impl} {response : HttpResponse} {r : AIResponse}
    (h : parseResponse json response = .ok r) :
    ∀ call ∈ r.message.toolCalls, (Adapter.anthropic impl).supplied call = true := by
  obtain ⟨_, _, _, _, hemitted⟩ := parseResponse_items h
  intro call hcall
  obtain ⟨n, block, _, cs, ks, ⟨_, hemits⟩, hmem⟩ := hemitted.mem_right hcall
  unfold OneEach at hemits
  by_cases huse : isToolUse block = true
  · rw [if_pos huse] at hemits
    rw [hemits.2] at hmem
    rw [List.mem_singleton.mp hmem]
    exact decide_eq_true rfl
  · rw [if_neg huse] at hemits
    rw [hemits.2] at hmem
    cases hmem

theorem GeminiClient.nativeCall_id (json : JsonText) (request : AIRequest) (callIndex : Nat) {part : JsonValue}
    (h : (part.member "functionCall").stringField "id" = "") :
    (nativeCall json request callIndex part).id = syntheticId request callIndex := if_pos h

theorem GeminiClient.supplied_eq (json : JsonText) (impl : Impl) (request : AIRequest) (callIndex : Nat)
    (part : JsonValue) :
    (Adapter.gemini impl).supplied (nativeCall json request callIndex part) =
      !decide ((part.member "functionCall").stringField "id" = "") := by
  have hsupplied : (Adapter.gemini impl).supplied (nativeCall json request callIndex part) = true ↔
      (part.member "functionCall").stringField "id" = (nativeCall json request callIndex part).id := decide_eq_true_iff
  by_cases hid : (part.member "functionCall").stringField "id" = ""
  · rw [nativeCall_id json request callIndex hid, hid] at hsupplied
    rw [decide_eq_true hid]
    exact Bool.eq_false_iff.mpr fun h => syntheticId_ne request callIndex (hsupplied.mp h).symm
  · rw [decide_eq_false hid]
    exact hsupplied.mpr (if_neg hid).symm

theorem GeminiClient.partIds_eq (json : JsonText) (impl : Impl) (request : AIRequest) (parts : List JsonValue) :
    ((((parts.filter isCallPart).zipIdx.map fun x => nativeCall json request x.2 x.1).filter fun call =>
      !(Adapter.gemini impl).supplied call).map ToolCall.id) = partIds request parts := by
  have hlacks : ((fun call => !(Adapter.gemini impl).supplied call) ∘
      fun x : JsonValue × Nat => nativeCall json request x.2 x.1) =
        fun x => decide ((x.1.member "functionCall").stringField "id" = "") := by
    funext x
    show (!(Adapter.gemini impl).supplied (nativeCall json request x.2 x.1)) = _
    rw [supplied_eq, Bool.not_not]
  rw [List.filter_map, List.map_map, hlacks]
  unfold partIds
  apply List.map_congr_left
  intro x hx
  have hid := of_decide_eq_true (List.mem_filter.mp hx).2
  exact nativeCall_id json request x.2 hid

theorem GeminiClient.partIds_append (request : AIRequest) (done rest : List JsonValue) :
    partIds request done <+: partIds request (done ++ rest) := by
  unfold partIds
  rw [List.filter_append, List.zipIdx_append, List.filter_append, List.map_append]
  exact List.prefix_append ..

theorem GeminiClient.createdIds_eq {json : JsonText} {impl : Impl} {request : AIRequest} {response : HttpResponse}
    {r : AIResponse} (h : parseResponse json request response = .ok r) :
    ∃ body, json.parse response.body = some body ∧ createdIds request body =
      (r.message.toolCalls.filter fun call => !(Adapter.gemini impl).supplied call).map ToolCall.id := by
  obtain ⟨body, hbody, hemitted⟩ := parseResponse_items h
  have hcalls := (hemitted.mono fun _ _ _ _ _ hx => hx.2).images.2
  refine ⟨body, hbody, ?_⟩
  rw [hcalls, partIds_eq]
  rfl

/-- Where the parser stops at a part it rejects, the ids it has made until then are the first of these. -/
theorem GeminiClient.createdIds_of_rejected {json : JsonText} {impl : Impl} {request : AIRequest}
    {malformed : String → Exc} {malformedData malformedFile : Exc} {body : JsonValue} {done rest : List JsonValue}
    {parsed : Parsed} (hparts : arrayMember (candidateContent body) "parts" = done ++ rest)
    (h : done.foldlM (parsePart json request malformed malformedData malformedFile) {} = .ok parsed) :
    ((parsed.calls.filter fun call => !(Adapter.gemini impl).supplied call).map ToolCall.id) <+:
      createdIds request body := by
  have hemitted := foldlM_parsed (fun _ _ _ => parsePart_emits) h
  have hcalls := (hemitted.mono fun _ _ _ _ _ hx => hx.2).images.2
  rw [hcalls, partIds_eq]
  unfold createdIds
  rw [hparts]
  exact partIds_append request done rest

theorem CompatibleClient.supplied_toolCall {json : JsonText} {impl : Impl} {malformed unsupported : String → Exc}
    {native : JsonValue} {call : ToolCall} (h : parseToolCall json malformed unsupported native = .ok call) :
    (Adapter.compatible impl).supplied call = true := by
  obtain ⟨hid, hnative, _⟩ := parseToolCall_ok h
  have hsupplied : call.providerMetadata.stringField "id" = call.id := by rw [hnative, JsonValue.stringField_eq hid]
  exact decide_eq_true hsupplied

theorem CompatibleClient.not_supplied_legacy (json : JsonText) (impl : Impl) (request : AIRequest)
    (name rawArguments : String) (function : JsonValue) :
    (Adapter.compatible impl).supplied (makeCall json (legacyId request) name rawArguments
      (.ofMembers [("legacy_function_call", .boolean true), ("function_call", function)])) = false := by
  have hid : (JsonValue.ofMembers [("legacy_function_call", .boolean true), ("function_call", function)]).stringField
      "id" = "" := by
    unfold JsonValue.stringField
    rw [JsonValue.find?_ofMembers]
    rfl
  apply decide_eq_false
  show (JsonValue.ofMembers _).stringField "id" ≠ legacyId request
  rw [hid]
  exact (legacyId_ne request).symm

theorem CompatibleClient.createdIds_eq {json : JsonText} {impl : Impl} {request : AIRequest} {response : HttpResponse}
    {r : AIResponse} (h : parseResponse json request response = .ok r) :
    ∃ body, json.parse response.body = some body ∧ createdIds request body =
      (r.message.toolCalls.filter fun call => !(Adapter.compatible impl).supplied call).map ToolCall.id := by
  unfold parseResponse at h
  simp only [bind_eq_ok, Prod.exists] at h
  obtain ⟨body, requestId, hbody, choice, hchoice, native, hnative, contents, _, calls, hcalls, calls', hcalls', _, _,
    h⟩ := h
  have hempty := parseToolCalls_nil_iff hcalls
  refine ⟨body, (responseBody_ok hbody).1, ?_⟩
  rw [← Except.ok.inj h]
  show _ = (calls'.filter fun call => !(Adapter.compatible impl).supplied call).map ToolCall.id
  unfold createdIds
  rw [← (parseMessage_ok hchoice hnative).1]
  dsimp only
  rcases withLegacyCall_cases hcalls' with ⟨rfl, hlegacy⟩ | ⟨m, name, rawArguments, invalid, hfind, hnil, _, rfl⟩
  · have hkept : (calls'.filter fun call => !(Adapter.compatible impl).supplied call) = [] := by
      rw [List.filter_eq_nil_iff]
      intro call hcall
      obtain ⟨_, _, hok⟩ := mem_of_forall₂ (parseToolCalls_ok hcalls).flip call hcall
      simp [supplied_toolCall hok]
    have hnone : ¬ (arrayMember native "tool_calls" = [] ∧ (native.member "function_call").isObject = true) := by
      rintro ⟨hnil, hobject⟩
      rw [hlegacy (hempty.mpr hnil)] at hobject
      cases hobject
    rw [hkept, if_neg hnone]
    rfl
  · have hobject : (native.member "function_call").isObject = true := by
      rw [JsonValue.member_eq hfind]
      rfl
    rw [if_pos ⟨hempty.mp hnil, hobject⟩, List.filter_cons_of_pos (by rw [not_supplied_legacy]; rfl)]
    rfl

/-- **Of an accepted response, the ids made are those of the calls that came without one.** -/
theorem Adapter.bodyIds_eq {json : JsonText} {request : AIRequest} {adapter : Adapter} {response : HttpResponse}
    {r : AIResponse} (h : adapter.parseResponse json request response = .ok r) :
    ∃ body, json.parse response.body = some body ∧ adapter.bodyIds request body =
      (r.message.toolCalls.filter fun call => !adapter.supplied call).map ToolCall.id := by
  have hall (hsupplied : ∀ call ∈ r.message.toolCalls, adapter.supplied call = true) :
      [] = (r.message.toolCalls.filter fun call => !adapter.supplied call).map ToolCall.id := by
    have hnone : (r.message.toolCalls.filter fun call => !adapter.supplied call) = [] := by
      rw [List.filter_eq_nil_iff]
      intro call hcall
      simp [hsupplied call hcall]
    rw [hnone]
    rfl
  cases adapter with
  | openai impl =>
    obtain ⟨body, _, _, hbody, _⟩ := OpenAIClient.parseResponse_items h
    exact ⟨body, hbody, hall (OpenAIClient.supplied_all h)⟩
  | anthropic impl =>
    obtain ⟨body, _, hbody, _⟩ := AnthropicClient.parseResponse_items h
    exact ⟨body, hbody, hall (AnthropicClient.supplied_all h)⟩
  | gemini impl => exact GeminiClient.createdIds_eq h
  | compatible impl => exact CompatibleClient.createdIds_eq h

theorem Adapter.received_of_generateOnce {json : JsonText} {send : HttpRequest → Except Exc HttpResponse}
    {adapter : Adapter} {request : AIRequest} {r : AIResponse} (h : adapter.generateOnce json send request = .ok r) :
    ∃ response, adapter.received json send request = .ok response ∧
      adapter.parseResponse json request response = .ok r := by
  rw [generateOnce_eq] at h
  unfold received
  cases hm : adapter.makeRequest json request with
  | error e =>
    rw [hm] at h
    cases h
  | ok body =>
    rw [hm] at h
    replace h : exchange json send adapter.secrets (adapter.httpRequest json body)
      (adapter.parseResponse json request) = .ok r := h
    cases hs : send (adapter.httpRequest json body) with
    | error e =>
      rw [exchange_error hs] at h
      cases h
    | ok response =>
      rw [exchange_sent hs] at h
      refine ⟨redactSensitiveResponse json adapter.secrets response, ?_, ?_⟩
      · show (send (adapter.httpRequest json body) >>= _) = _
        rw [hs]
        rfl
      · cases hp : adapter.parseResponse json request (redactSensitiveResponse json adapter.secrets response) with
        | error e =>
          rw [hp] at h
          cases h
        | ok r' =>
          rw [hp] at h
          exact h

/-! ## What the duplicate check can refuse -/

theorem AIClient.checkCallIds_repeats (client : AIClient) {requestId : String} {e : Exc} :
    ∀ {calls : List ToolCall} {callIds : List String}, Named calls →
      client.checkCallIds requestId callIds calls = .error e →
      (∃ b ∈ calls, b.id ∈ callIds) ∨ ∃ a b, [a, b].Sublist calls ∧ a.id = b.id
  | [], _, _, h => by cases h
  | call :: calls, callIds, hnamed, h => by
    rw [checkCallIds, if_neg (not_or.mpr (hnamed call List.mem_cons_self))] at h
    by_cases hseen : call.id ∈ callIds
    · exact .inl ⟨call, List.mem_cons_self, hseen⟩
    · rw [if_neg hseen] at h
      have hrest : Named calls := fun call hcall => hnamed call (List.mem_cons_of_mem _ hcall)
      rcases client.checkCallIds_repeats hrest h with ⟨b, hb, hid⟩ | ⟨a, b, hsub, hid⟩
      · rcases List.mem_cons.mp hid with hid | hid
        · exact .inr ⟨call, b, (List.singleton_sublist.mpr hb).cons_cons call, hid.symm⟩
        · exact .inl ⟨b, List.mem_cons_of_mem _ hb, hid⟩
      · exact .inr ⟨a, b, hsub.cons call, hid⟩

/-- Two calls of one id are not both from a part of the list where the ids are distinct. -/
theorem duplicate_outside {calls : List ToolCall} {outside : ToolCall → Bool}
    (h : ((calls.filter fun call => !outside call).map ToolCall.id).Nodup) {a b : ToolCall}
    (hsub : [a, b].Sublist calls) (hid : a.id = b.id) : outside a = true ∨ outside b = true := by
  by_contra hnone
  rw [not_or, Bool.not_eq_true, Bool.not_eq_true] at hnone
  have hboth := (hsub.filter fun call => !outside call).map ToolCall.id
  rw [List.filter_cons_of_pos (by simp [hnone.1]), List.filter_cons_of_pos (by simp [hnone.2])] at hboth
  have hdistinct := h.sublist hboth
  simp [hid] at hdistinct

/-- **Ids that the adapters make up are made once**, over all calls of `generate` in a process, and the check for
duplicates refuses a response only for an id that the provider supplied. -/
theorem synthetic_ids_distinct (json : JsonText) :
    (∀ gens : List BuiltInGeneration, gens.countP BuiltInGeneration.admitted < 2 ^ 64 →
      ((started 1 gens).flatMap (BuiltInGeneration.createdIds json)).Nodup) ∧
    ∀ (adapter : Adapter) (send : HttpRequest → Except Exc HttpResponse) (request : AIRequest) (r : AIResponse),
      adapter.generateOnce json send request = .ok r →
      adapter.createdIds json send request =
        (r.message.toolCalls.filter fun call => !adapter.supplied call).map ToolCall.id ∧
      ∀ (client : AIClient) (requestId : String) (e : Exc),
        client.checkCallIds requestId [] r.message.toolCalls = .error e →
        ∃ a b, [a, b].Sublist r.message.toolCalls ∧ a.id = b.id ∧
          (adapter.supplied a = true ∨ adapter.supplied b = true) := by
  refine ⟨fun gens hcount => started_nodup json gens (n := 1) (by omega), ?_⟩
  intro adapter send request r h
  obtain ⟨response, hreceived, hparse⟩ := Adapter.received_of_generateOnce h
  obtain ⟨body, hbody, hids⟩ := Adapter.bodyIds_eq hparse
  have hcreated := (Adapter.createdIds_of_body hreceived hbody).trans hids
  refine ⟨hcreated, ?_⟩
  intro client requestId e he
  have hends := adapter.parseResponse_ends json request response
  rw [hparse] at hends
  have hnamed := AIResponse.WellFormedFor.named hends
  rcases client.checkCallIds_repeats hnamed he with ⟨b, _, hid⟩ | ⟨a, b, hsub, hid⟩
  · cases hid
  · have hdistinct := Adapter.bodyIds_nodup request body adapter
    rw [hids] at hdistinct
    exact ⟨a, b, hsub, hid, duplicate_outside hdistinct hsub hid⟩

def unnumberedBody : JsonValue :=
  candidateBody "model" [
    .ofMembers [("functionCall", .ofMembers [("args", .emptyObject), ("name", .string "weather")])],
    .ofMembers [("functionCall", .ofMembers [("args", .emptyObject), ("name", .string "weather")])]]

def unnumbered : BuiltInGeneration where
  client :=
    { base := { AIClient.plainClient with model := { provider := .gemini, id := "weather-model" } }
      adapter := .gemini
        { config := { model := { provider := .gemini, id := "weather-model" } }, endpoint := "", apiKey := "key"
          valid := rfl }
      model_eq := rfl }
  session := { id := "session-1" }
  call :=
    { runId := "", send := fun n _ =>
        if n = 0 then .ok { status := 200, body := "" } else .error (.transport "connection reset")
      invoke := fun _ _ _ _ _ => .error .unknown, schedule := fun _ => [], input := .userText "hello", options := {} }

theorem synthetic_ids_distinct_unnumbered :
    (started 1 [unnumbered, unnumbered]).flatMap (BuiltInGeneration.createdIds (fixedText unnumberedBody)) =
      ["gemini_call_run-1_1_0", "gemini_call_run-1_1_1", "gemini_call_run-2_1_0", "gemini_call_run-2_1_1"] ∧
    ((started 1 [unnumbered, unnumbered]).flatMap
      (BuiltInGeneration.createdIds (fixedText unnumberedBody))).Nodup :=
  ⟨by decide +kernel, (synthetic_ids_distinct (fixedText unnumberedBody)).1 _ (by decide +kernel)⟩

end NeuralPlus
