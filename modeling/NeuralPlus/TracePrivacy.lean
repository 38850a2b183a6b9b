import NeuralPlus.TraceSound

/-!
# What a trace tells

Without payloads the events of a run are determined by its metadata: two runs
that agree on it trace the same, whatever their texts, arguments, outputs and
exceptions say.
-/

namespace NeuralPlus

open Fallible

/-! ## Metadata -/

structure ResponseMetadata where
  calls : List (String × String)
  finishReason : FinishReason
  requiresContinuation : Bool
  providerRequestId : String
  deriving DecidableEq

def AIResponse.metadata (response : AIResponse) : ResponseMetadata :=
  { calls := response.message.toolCalls.map fun call => (call.id, call.name)
    finishReason := response.finishReason
    requiresContinuation := response.requiresContinuation
    providerRequestId := response.providerRequestId }

structure RoundMetadata where
  response : Option ResponseMetadata
  toolErrors : List Bool
  order : List ExecMark
  deriving DecidableEq

structure Generation where
  client : AIClient
  env : RunEnv
  session : Session
  input : Message
  options : GenerateOptions := {}

namespace Generation

variable (g : Generation)

def result : GenerateResult := g.client.generate g.env g.session g.input g.options

def events : List TraceEvent := g.result.log.events

def order (i : Nat) (r : Round) : List ExecMark :=
  match r.response with
  | none => []
  | some response =>
    if r.appended then
      (g.client.executeTools (AIClient.site g.env g.session.id i) response.message.toolCalls (g.env.schedule i)).2
    else []

def roundMetadata (i : Nat) (r : Round) : RoundMetadata :=
  ⟨r.response.map AIResponse.metadata, r.executions.map fun x => x.output.isError, g.order i r⟩

def metadata : List RoundMetadata := g.result.log.rounds.mapIdx g.roundMetadata

/-- Whether the run fails, and if so whether with a `std::exception`. -/
def failure : Option Bool :=
  match g.result.outcome with
  | .ok _ => none
  | .error e => some e.what?.isSome

def AtLimit : Prop :=
  ∃ rounds last text, g.result.log.rounds = rounds ++ [last] ∧ last.response ≠ none ∧
    g.result.outcome = .error (.maxRounds text)

/-- The configuration and the input of two runs look the same. -/
structure SameSetting (g g' : Generation) : Prop where
  sessionId : g.session.id = g'.session.id
  runId : g.env.runId = g'.env.runId
  modelId : g.client.model.id = g'.client.model.id
  messageCount : g.session.messages.length = g'.session.messages.length
  toolCount : g.client.toolSpecs.length = g'.client.toolSpecs.length
  inputRole : g.input.role = g'.input.role
  metadataOnly : g.client.options.captureTracePayloads = false ∧ g'.client.options.captureTracePayloads = false

/-- They agree on the metadata of each round, and on whether and how they fail. -/
structure SameMetadata (g g' : Generation) : Prop where
  rounds : g.metadata = g'.metadata
  failure : g.failure = g'.failure

end Generation

/-! ## The events of two runs -/

namespace TraceEvent

theorem capture_false (e : TraceEvent) (payload : String) : e.capture false payload = e := rfl

@[simp] theorem setAttribute_payload (e : TraceEvent) (k : String) (v : JsonValue) :
    (e.setAttribute k v).payload = e.payload := rfl

end TraceEvent

namespace Generation

variable {g g' : Generation}

section
variable (h : SameSetting g g')
include h

theorem SameSetting.event_eq (type : TraceEventType) :
    g.client.event g.env type g.session.id = g'.client.event g'.env type g'.session.id := by
  simp only [AIClient.event, makeEvent, h.sessionId, h.runId, h.modelId]

theorem SameSetting.generationStart_eq :
    g.client.generationStart g.env g.session.id g.input = g'.client.generationStart g'.env g'.session.id g'.input := by
  simp only [AIClient.generationStart, h.event_eq, h.inputRole, h.metadataOnly.1, h.metadataOnly.2,
    TraceEvent.capture_false]

theorem SameSetting.generationEnd_eq (level : TraceLevel) (round toolCalls : SizeT) (reason : String) :
    g.client.generationEnd g.env g.session.id level round toolCalls reason =
      g'.client.generationEnd g'.env g'.session.id level round toolCalls reason := by
  simp only [AIClient.generationEnd, h.event_eq]

theorem SameSetting.errorEvent_eq (e e' : Exc) (he : e.what?.isSome = e'.what?.isSome) :
    g.client.errorEvent g.env g.session.id e = g'.client.errorEvent g'.env g'.session.id e' := by
  simp only [AIClient.errorEvent, h.event_eq, he, h.metadataOnly.1, h.metadataOnly.2, TraceEvent.capture_false]

structure SameRequest (g g' : Generation) (request request' : AIRequest) : Prop where
  sessionId : request.sessionId = g.session.id
  sessionId' : request'.sessionId = g'.session.id
  messages : request.messages.length = request'.messages.length
  tools : request.tools.length = request'.tools.length

theorem SameSetting.providerStart_eq {request request' : AIRequest} (hr : SameRequest g g' request request')
    (round : SizeT) : g.client.providerStart g.env round request = g'.client.providerStart g'.env round request' := by
  simp only [AIClient.providerStart, hr.sessionId, hr.sessionId', h.event_eq, hr.messages, hr.tools]

theorem SameSetting.providerEnd_eq {request request' : AIRequest} (hr : SameRequest g g' request request')
    {response response' : AIResponse} (hm : response.metadata = response'.metadata) (round : SizeT) :
    g.client.providerEnd g.env round request response = g'.client.providerEnd g'.env round request' response' := by
  have hcalls := congrArg (fun m => m.calls.length) hm
  simp only [AIResponse.metadata, List.length_map] at hcalls
  have hreason : response.finishReason = response'.finishReason := congrArg ResponseMetadata.finishReason hm
  have hcont : response.requiresContinuation = response'.requiresContinuation :=
    congrArg ResponseMetadata.requiresContinuation hm
  have hid : response.providerRequestId = response'.providerRequestId :=
    congrArg ResponseMetadata.providerRequestId hm
  simp only [AIClient.providerEnd, hr.sessionId, hr.sessionId', h.event_eq, hcalls, hreason, hcont, hid,
    h.metadataOnly.1, h.metadataOnly.2, TraceEvent.capture_false]

end

/-! ### Tools -/

def toolMetadata (x : ToolExecution) : (String × String) × Bool := ((x.call.id, x.call.name), x.output.isError)

theorem map_eq_of_map_eq {α β γ δ : Type} {f : α → γ} {f' : β → γ} {k : α → δ} {k' : β → δ}
    (hk : ∀ a b, f a = f' b → k a = k' b) : ∀ {as : List α} {bs : List β}, as.map f = bs.map f' → as.map k = bs.map k'
  | [], [], _ => rfl
  | [], _ :: _, h => by cases h
  | _ :: _, [], h => by cases h
  | a :: as, b :: bs, h => by
    obtain ⟨hab, hrest⟩ := List.cons.inj h
    rw [List.map_cons, List.map_cons, hk a b hab, map_eq_of_map_eq hk hrest]

theorem toolMetadata_map (executions : List ToolExecution) : executions.map toolMetadata =
    ((executions.map ToolExecution.call).map fun call => (call.id, call.name)).zip
      (executions.map fun x => x.output.isError) := by
  rw [List.map_map, List.zip_map']
  rfl

/-- Without a payload the event that closes an execution does not tell its diagnostic. -/
theorem toolEnd_map {client : AIClient} {env : RunEnv} {sessionId : String} {n : Nat} {calls : List ToolCall}
    {executions : List ToolExecution} (hoff : client.options.captureTracePayloads = false)
    (hexec : calls.mapIdx (fun i call => client.executeTool (AIClient.site env sessionId n i) call) =
      executions.map .ok) :
    executions.map ToolExecution.toolEnd =
      executions.map fun x => client.toolEnd (AIClient.site env sessionId n 0) x.call x.output "" := by
  apply List.map_congr_left
  intro x hx
  obtain ⟨i, call, _, hrun⟩ := AIClient.executed_mem hexec hx
  obtain ⟨rfl, diagnostic, hend⟩ := AIClient.executeTool_toolEnd hrun
  rw [hend]
  simp only [AIClient.toolEnd, hoff, TraceEvent.capture_false]
  rfl

section
variable (h : SameSetting g g') {n : Nat} {calls calls' : List ToolCall} {executions executions' : List ToolExecution}
  (hcalls : calls.map (fun call => (call.id, call.name)) = calls'.map fun call => (call.id, call.name))
include h hcalls

theorem SameSetting.toolStart_map :
    calls.map (AIClient.toolStart (AIClient.site g.env g.session.id n 0)) =
      calls'.map (AIClient.toolStart (AIClient.site g'.env g'.session.id n 0)) := by
  apply map_eq_of_map_eq ?_ hcalls
  intro call call' hcall
  obtain ⟨hid, hname⟩ := Prod.mk.inj hcall
  simp only [AIClient.toolStart, AIClient.site, makeEvent, h.sessionId, h.runId, hid, hname]

variable (hexec : calls.mapIdx (fun i call => g.client.executeTool (AIClient.site g.env g.session.id n i) call) =
    executions.map .ok)
  (hexec' : calls'.mapIdx (fun i call => g'.client.executeTool (AIClient.site g'.env g'.session.id n i) call) =
    executions'.map .ok)
  (herrors : executions.map (fun x => x.output.isError) = executions'.map fun x => x.output.isError)
include hexec hexec' herrors

theorem SameSetting.toolEnd_map :
    executions.map ToolExecution.toolEnd = executions'.map ToolExecution.toolEnd := by
  have hmeta : executions.map toolMetadata = executions'.map toolMetadata := by
    rw [toolMetadata_map, toolMetadata_map, AIClient.calls_of_executed hexec,
      AIClient.calls_of_executed hexec', hcalls, herrors]
  rw [Generation.toolEnd_map h.metadataOnly.1 hexec, Generation.toolEnd_map h.metadataOnly.2 hexec']
  apply map_eq_of_map_eq ?_ hmeta
  intro x x' hx
  obtain ⟨hcall, herror⟩ := Prod.mk.inj hx
  obtain ⟨hid, hname⟩ := Prod.mk.inj hcall
  simp only [AIClient.toolEnd, AIClient.site, makeEvent, h.sessionId, h.runId, hid, hname, herror, h.metadataOnly.1,
    h.metadataOnly.2, TraceEvent.capture_false]

theorem SameSetting.toolEvents_eq (marks : List ExecMark) :
    AIClient.toolEvents (AIClient.site g.env g.session.id n 0) calls executions marks =
      AIClient.toolEvents (AIClient.site g'.env g'.session.id n 0) calls' executions' marks := by
  rw [AIClient.toolEvents_eq, AIClient.toolEvents_eq]
  apply List.filterMap_congr
  intro mark _
  cases mark with
  | started index =>
    simp only [AIClient.markEvent, ← List.getElem?_map]
    rw [h.toolStart_map hcalls]
  | ended index =>
    simp only [AIClient.markEvent, ← List.getElem?_map]
    rw [h.toolEnd_map hcalls hexec hexec' herrors]

end

/-! ### Rounds -/

section
variable {before before' : List Round} {r r' : Round} {response response' : AIResponse}
  (hc : g.client.Completed g.env g.options (AIClient.opened g.session g.input) before r response)
  (hc' : g'.client.Completed g'.env g'.options (AIClient.opened g'.session g'.input) before' r' response')
include hc hc'

theorem messages_length_eq (hm : g.roundMetadata before.length r = g'.roundMetadata before'.length r') :
    r.messages.length = r'.messages.length ∧ r.executions.length = r'.executions.length := by
  have herrors := congrArg (fun m => m.toolErrors.length) hm
  simp only [roundMetadata, List.length_map] at herrors
  obtain ⟨b, _, _, hb, hlen⟩ := hc.block
  obtain ⟨b', _, _, hb', hlen'⟩ := hc'.block
  refine ⟨?_, herrors⟩
  rw [hb, hb']
  simp only [AIClient.Block.messages, List.length_cons]
  omega

theorem SameSetting.roundEvents_eq (h : SameSetting g g') (hlen : before.length = before'.length)
    (hr : SameRequest g g' r.request r'.request)
    (hm : g.roundMetadata before.length r = g'.roundMetadata before'.length r') :
    g.client.roundEvents g.env g.session.id before.length r =
      g'.client.roundEvents g'.env g'.session.id before'.length r' := by
  have hresponse := congrArg RoundMetadata.response hm
  simp only [roundMetadata, hc.answer, hc'.answer, Option.map_some, Option.some.injEq] at hresponse
  have hcalls := congrArg ResponseMetadata.calls hresponse
  have horder := congrArg RoundMetadata.order hm
  simp only [roundMetadata, order, hc.answer, hc'.answer, hc.appended, hc'.appended, if_true] at horder
  have herrors := congrArg RoundMetadata.toolErrors hm
  simp only [AIClient.roundEvents, hc.answer, hc'.answer]
  rw [hlen, h.providerStart_eq hr, h.providerEnd_eq hr hresponse, ← horder, hlen]
  congr 1
  have hexec := hc.executed
  rw [hlen] at hexec
  exact h.toolEvents_eq hcalls hexec hc'.executed herrors _

end

theorem SameSetting.request (h : SameSetting g g') {rounds rounds' : List Round}
    (hcount : (rounds.flatMap Round.messages).length = (rounds'.flatMap Round.messages).length) :
    SameRequest g g'
      (g.client.makeRequest g.env g.options (AIClient.afterRounds (AIClient.opened g.session g.input) rounds))
      (g'.client.makeRequest g'.env g'.options (AIClient.afterRounds (AIClient.opened g'.session g'.input) rounds')) where
  sessionId := rfl
  sessionId' := rfl
  messages := by
    have := h.messageCount
    simp only [AIClient.makeRequest, AIClient.afterRounds, AIClient.opened, List.length_append, List.length_singleton]
    omega
  tools := h.toolCount

/-- **Rounds with the same metadata leave the same events**, and as many messages and executions. -/
theorem SameSetting.tracedRounds_eq (h : SameSetting g g') {rounds rounds' : List Round}
    (hr : History.Holds (fun before r => ∃ response,
      g.client.Completed g.env g.options (AIClient.opened g.session g.input) before r response) rounds)
    (hr' : History.Holds (fun before r => ∃ response,
      g'.client.Completed g'.env g'.options (AIClient.opened g'.session g'.input) before r response) rounds')
    (hm : rounds.mapIdx g.roundMetadata = rounds'.mapIdx g'.roundMetadata) :
    g.client.tracedRounds g.env g.session.id rounds = g'.client.tracedRounds g'.env g'.session.id rounds' ∧
      (rounds.flatMap Round.messages).length = (rounds'.flatMap Round.messages).length ∧
      AIClient.executedCalls rounds = AIClient.executedCalls rounds' := by
  induction rounds using List.reverseRecOn generalizing rounds' with
  | nil =>
    have hnil : rounds' = [] := by
      have := congrArg List.length hm
      simpa using this.symm
    subst hnil
    exact ⟨rfl, rfl, rfl⟩
  | append_singleton rounds r ih =>
    rcases List.eq_nil_or_concat' rounds' with rfl | ⟨rounds', r', rfl⟩
    · have := congrArg List.length hm
      simp at this
    rw [List.mapIdx_concat, List.mapIdx_concat] at hm
    obtain ⟨hinit, hlast⟩ := List.append_inj' hm rfl
    obtain ⟨hevents, hcount, hcalls⟩ := ih hr.left hr'.left hinit
    obtain ⟨response, hc⟩ := hr.last
    obtain ⟨response', hc'⟩ := hr'.last
    have hlen : rounds.length = rounds'.length := by simpa using congrArg List.length hinit
    have hrm := List.singleton_inj.mp hlast
    obtain ⟨hmessages, hexec⟩ := messages_length_eq hc hc' hrm
    have hreq : SameRequest g g' r.request r'.request := by
      rw [hc.request, hc'.request]
      exact h.request hcount
    refine ⟨?_, ?_, ?_⟩
    · rw [AIClient.tracedRounds_concat, AIClient.tracedRounds_concat, hevents,
        h.roundEvents_eq hc hc' hlen hreq hrm]
    · simp [hcount, hmessages]
    · rw [AIClient.executedCalls_concat, AIClient.executedCalls_concat, hcalls, hexec]

/-! ## Payloads -/

section
variable {opened : Session} {before : List Round} {r : Round} {response : AIResponse}

theorem toolEnd_payload {client : AIClient} (hoff : client.options.captureTracePayloads = false) (site : ToolSite)
    (call : ToolCall) (output : ToolOutput) (diagnostic : String) :
    (client.toolEnd site call output diagnostic).payload = "" := by
  rw [AIClient.toolEnd, hoff, TraceEvent.capture_false]
  rfl

theorem roundEvents_payload (hoff : g.client.options.captureTracePayloads = false)
    (hc : g.client.Completed g.env g.options opened before r response) :
    ∀ e ∈ g.client.roundEvents g.env opened.id before.length r, e.payload = "" := by
  intro e he
  simp only [AIClient.roundEvents, hc.answer, List.mem_append, List.mem_cons, List.not_mem_nil, or_false] at he
  rcases he with (rfl | rfl) | he
  · rfl
  · rw [AIClient.providerEnd, hoff, TraceEvent.capture_false]
    rfl
  · rw [AIClient.toolEvents_eq] at he
    obtain ⟨mark, _, hmark⟩ := List.mem_filterMap.mp he
    cases mark with
    | started index =>
      obtain ⟨call, _, rfl⟩ := Option.map_eq_some_iff.mp hmark
      rfl
    | ended index =>
      obtain ⟨x, hx, rfl⟩ := Option.map_eq_some_iff.mp hmark
      obtain ⟨_, call, _, hrun⟩ := AIClient.executed_mem hc.executed (List.mem_of_getElem? hx)
      obtain ⟨_, _, hend⟩ := AIClient.executeTool_toolEnd hrun
      rw [hend]
      exact toolEnd_payload hoff _ _ _ _

theorem tracedRounds_payload (hoff : g.client.options.captureTracePayloads = false) {rounds : List Round}
    (hr : History.Holds (fun before r => ∃ response, g.client.Completed g.env g.options opened before r response)
      rounds) : ∀ e ∈ g.client.tracedRounds g.env opened.id rounds, e.payload = "" := by
  induction rounds using List.reverseRecOn with
  | nil => simp [AIClient.tracedRounds]
  | append_singleton rounds r ih =>
    obtain ⟨response, hc⟩ := hr.last
    rw [AIClient.tracedRounds_concat, List.forall_mem_append]
    exact ⟨ih hr.left, roundEvents_payload hoff hc⟩

end

/-! ## Two runs -/

/-- A run is refused and traces nothing, or ends in one of the ways of a run that took the lease. -/
theorem traces (g : Generation) : (g.result.log.rounds = [] ∧ g.events = []) ∨
    g.client.RunTrace g.env g.options g.session g.input g.result := by
  cases hbegin : g.client.begin g.session g.input g.options with
  | ok leased => exact .inr (AIClient.generate_traces hbegin)
  | error e =>
    have hg : g.result = { session := g.session, outcome := .error e } := by
      rw [result, AIClient.generate, hbegin]
    exact .inl ⟨by rw [hg], by rw [events, hg]⟩

theorem RunTrace.rounds_ne {client : AIClient} {env : RunEnv} {options : GenerateOptions} {session : Session}
    {input : Message} {result : GenerateResult} (h : client.RunTrace env options session input result) :
    result.log.rounds ≠ [] := by
  cases h with
  | unanswered _ _ _ _ _ hlog _ => simp [hlog]
  | limited _ _ _ _ _ hlog _ => simp [hlog]
  | returned _ _ _ _ hlog _ => simp [hlog]

theorem events_payload (hoff : g.client.options.captureTracePayloads = false) : ∀ e ∈ g.events, e.payload = "" := by
  have hstart : (g.client.generationStart g.env g.session.id g.input).payload = "" := by
    rw [AIClient.generationStart, hoff, TraceEvent.capture_false]
    rfl
  have herror (e : Exc) : (g.client.errorEvent g.env g.session.id e).payload = "" := by
    rw [AIClient.errorEvent, hoff, TraceEvent.capture_false]
    rfl
  rcases g.traces with ⟨_, hnil⟩ | htrace
  · simp [hnil]
  unfold events
  cases htrace with
  | @unanswered rounds last e hrounds _ _ _ _ _ hevents =>
    have hall := tracedRounds_payload hoff hrounds.completed
    rw [hevents, List.forall_mem_cons, List.forall_mem_append]
    refine ⟨hstart, hall, ?_⟩
    simp [herror, AIClient.providerStart, AIClient.event, makeEvent]
  | @limited rounds last response text hrounds _ _ _ _ _ hevents =>
    have hall := tracedRounds_payload hoff hrounds.completed
    rw [hevents, List.forall_mem_cons, List.forall_mem_append]
    refine ⟨hstart, hall, ?_⟩
    simp [herror, AIClient.providerStart, AIClient.providerEnd, AIClient.event, makeEvent, hoff,
      TraceEvent.capture_false]
  | @returned rounds last response out level reason hrounds hlast _ _ _ hevents =>
    have hall := tracedRounds_payload hoff (hrounds.completed.concat ⟨response, hlast⟩)
    rw [hevents, List.forall_mem_cons, List.forall_mem_append]
    refine ⟨hstart, hall, ?_⟩
    simp [AIClient.generationEnd, AIClient.event, makeEvent]

section
variable {rounds rounds' : List Round} {last last' : Round}

theorem SameMetadata.split (hm : SameMetadata g g') (hlog : g.result.log.rounds = rounds ++ [last])
    (hlog' : g'.result.log.rounds = rounds' ++ [last']) :
    rounds.mapIdx g.roundMetadata = rounds'.mapIdx g'.roundMetadata ∧ rounds.length = rounds'.length ∧
      g.roundMetadata rounds.length last = g'.roundMetadata rounds'.length last' := by
  have hrounds := hm.rounds
  simp only [metadata, hlog, hlog', List.mapIdx_concat] at hrounds
  obtain ⟨hinit, hlast⟩ := List.append_inj' hrounds rfl
  exact ⟨hinit, by simpa using congrArg List.length hinit, List.singleton_inj.mp hlast⟩

theorem failure_of_error {e : Exc} (hout : g.result.outcome = .error e) : g.failure = some e.what?.isSome := by
  rw [failure, hout]

theorem failure_of_ok {out : AIResponse} (hout : g.result.outcome = .ok out) : g.failure = none := by
  rw [failure, hout]

theorem needsAnother_iff {response response' : AIResponse} (hm : response.metadata = response'.metadata) :
    NeedsAnother response ↔ NeedsAnother response' := by
  have hcalls := congrArg (fun m => m.calls.length) hm
  simp only [AIResponse.metadata, List.length_map] at hcalls
  have hcont : response.requiresContinuation = response'.requiresContinuation :=
    congrArg ResponseMetadata.requiresContinuation hm
  simp only [NeedsAnother, ← List.length_pos_iff, hcalls, hcont]

/-- A run that failed. Of its last round it shows the end of the provider's turn at the limit only. -/
structure Failed (g : Generation) (rounds : List Round) (last : Round) (shown : Option AIResponse) (e : Exc) : Prop where
  continued : g.client.Continued g.env g.options (AIClient.opened g.session g.input) rounds
  request : last.request = g.client.makeRequest g.env g.options
    (AIClient.afterRounds (AIClient.opened g.session g.input) rounds)
  log : g.result.log.rounds = rounds ++ [last]
  events : g.events = g.client.generationStart g.env g.session.id g.input ::
    (g.client.tracedRounds g.env g.session.id rounds ++
      ((g.client.failedSpan g.env (.ofNat (rounds.length + 1)) last.request shown).events ++
        [g.client.errorEvent g.env g.session.id e]))
  shown : shown = none ∧ ¬ g.AtLimit ∨ shown = last.response ∧ g.AtLimit

theorem failed_of_error (htrace : g.client.RunTrace g.env g.options g.session g.input g.result) {e : Exc}
    (hout : g.result.outcome = .error e) : ∃ rounds last shown, g.Failed rounds last shown e := by
  cases htrace with
  | @unanswered rounds last e' hr hreq _ hno hout' hlog hevents =>
    obtain rfl := Except.error.inj (hout'.symm.trans hout)
    refine ⟨rounds, last, none, hr, hreq, hlog, hevents, .inl ⟨rfl, ?_⟩⟩
    intro ⟨before, r, text, hsplit, hresponse, hlimit⟩
    obtain ⟨_, hlast⟩ := List.append_inj' (hlog.symm.trans hsplit) rfl
    rcases hno with hnone | hne
    · exact hresponse (by rw [← List.singleton_inj.mp hlast, hnone])
    · exact hne text (Except.error.inj (hout.symm.trans hlimit))
  | @limited rounds last response text hr hreq _ hresponse hout' hlog hevents =>
    obtain rfl := Except.error.inj (hout'.symm.trans hout)
    exact ⟨rounds, last, some response, hr, hreq, hlog, hevents,
      .inr ⟨hresponse.symm, rounds, last, text, hlog, by simp [hresponse], hout⟩⟩
  | returned _ _ _ hout' _ _ => cases hout'.symm.trans hout

theorem Failed.shown_eq {e e' : Exc} {shown shown' : Option AIResponse} (hf : g.Failed rounds last shown e)
    (hf' : g'.Failed rounds' last' shown' e') (hlimit : g.AtLimit ↔ g'.AtLimit)
    (hm : last.response.map AIResponse.metadata = last'.response.map AIResponse.metadata) :
    shown.map AIResponse.metadata = shown'.map AIResponse.metadata := by
  rcases hf.shown with ⟨hs, hnot⟩ | ⟨hs, hat⟩ <;> rcases hf'.shown with ⟨hs', hnot'⟩ | ⟨hs', hat'⟩
  · rw [hs, hs']
  · exact absurd (hlimit.mpr hat') hnot
  · exact absurd (hlimit.mp hat) hnot'
  · rw [hs, hs', hm]

theorem SameSetting.failedSpan_eq (h : SameSetting g g') {request request' : AIRequest}
    (hr : SameRequest g g' request request') {shown shown' : Option AIResponse}
    (hm : shown.map AIResponse.metadata = shown'.map AIResponse.metadata) (round : SizeT) :
    g.client.failedSpan g.env round request shown = g'.client.failedSpan g'.env round request' shown' := by
  simp only [AIClient.failedSpan, h.providerStart_eq hr]
  congr 1
  cases shown with
  | none =>
    cases shown' with
    | none => rfl
    | some response' => cases hm
  | some response =>
    cases shown' with
    | none => cases hm
    | some response' => exact congrArg some (h.providerEnd_eq hr (Option.some.inj hm) round)

theorem SameSetting.failed_eq (h : SameSetting g g') (hm : SameMetadata g g') (hlimit : g.AtLimit ↔ g'.AtLimit)
    {e e' : Exc} {shown shown' : Option AIResponse} (hf : g.Failed rounds last shown e)
    (hf' : g'.Failed rounds' last' shown' e') (he : e.what?.isSome = e'.what?.isSome) : g.events = g'.events := by
  obtain ⟨hinit, hlen, hlast⟩ := hm.split hf.log hf'.log
  obtain ⟨htraced, hcount, _⟩ := h.tracedRounds_eq hf.continued.completed hf'.continued.completed hinit
  have hrequest := h.request hcount
  rw [← hf.request, ← hf'.request] at hrequest
  have hshown := hf.shown_eq hf' hlimit (congrArg RoundMetadata.response hlast)
  rw [hf.events, hf'.events, h.generationStart_eq, htraced, hlen, h.failedSpan_eq hrequest hshown,
    h.errorEvent_eq e e' he]

theorem SameSetting.returned_eq (h : SameSetting g g') (hm : SameMetadata g g') {out out' : AIResponse}
    (htrace : g.client.RunTrace g.env g.options g.session g.input g.result)
    (htrace' : g'.client.RunTrace g'.env g'.options g'.session g'.input g'.result)
    (hout : g.result.outcome = .ok out) (hout' : g'.result.outcome = .ok out') : g.events = g'.events := by
  cases htrace with
  | unanswered _ _ _ _ herror _ _ => cases herror.symm.trans hout
  | limited _ _ _ _ herror _ _ => cases herror.symm.trans hout
  | @returned rounds last response _ level reason hr hc hend _ hlog hevents =>
  cases htrace' with
  | unanswered _ _ _ _ herror _ _ => cases herror.symm.trans hout'
  | limited _ _ _ _ herror _ _ => cases herror.symm.trans hout'
  | @returned rounds' last' response' _ level' reason' hr' hc' hend' _ hlog' hevents' =>
    obtain ⟨hinit, hlen, hlast⟩ := hm.split hlog hlog'
    have hmeta := congrArg RoundMetadata.response hlast
    simp only [roundMetadata, hc.answer, hc'.answer, Option.map_some, Option.some.injEq] at hmeta
    have hboth : (rounds ++ [last]).mapIdx g.roundMetadata = (rounds' ++ [last']).mapIdx g'.roundMetadata := by
      rw [List.mapIdx_concat, List.mapIdx_concat, hinit, hlast]
    obtain ⟨htraced, _, hcalls⟩ :=
      h.tracedRounds_eq (hr.completed.concat ⟨_, hc⟩) (hr'.completed.concat ⟨_, hc'⟩) hboth
    have hclose : level = level' ∧ reason = reason' := by
      have hneeds := needsAnother_iff hmeta
      have hreason : response.finishReason = response'.finishReason := congrArg ResponseMetadata.finishReason hmeta
      rcases hend with ⟨hn, rfl, rfl⟩ | ⟨hn, rfl, rfl⟩ <;> rcases hend' with ⟨hn', rfl, rfl⟩ | ⟨hn', rfl, rfl⟩
      · exact ⟨rfl, by rw [hreason]⟩
      · exact absurd (hneeds.mpr hn') hn
      · exact absurd (hneeds.mp hn) hn'
      · exact ⟨rfl, rfl⟩
    unfold events
    rw [hevents, hevents', h.generationStart_eq, htraced, hlen, hcalls, h.generationEnd_eq, hclose.1, hclose.2]

end

/-- **A trace without payloads tells the metadata and nothing else.** -/
theorem metadata_only (h : SameSetting g g') (hm : SameMetadata g g') (hlimit : g.AtLimit ↔ g'.AtLimit) :
    g.events = g'.events ∧ ∀ e ∈ g.events, e.payload = "" := by
  refine ⟨?_, events_payload h.metadataOnly.1⟩
  have hlength : g.result.log.rounds.length = g'.result.log.rounds.length := by
    simpa [metadata] using congrArg List.length hm.rounds
  have hfailure := hm.failure
  rcases g.traces with ⟨hnil, hnone⟩ | htrace
  · rcases g'.traces with ⟨_, hnone'⟩ | htrace'
    · rw [hnone, hnone']
    · rw [hnil, List.length_nil, eq_comm, List.length_eq_zero_iff] at hlength
      exact absurd hlength (RunTrace.rounds_ne htrace')
  rcases g'.traces with ⟨hnil', _⟩ | htrace'
  · rw [hnil', List.length_nil, List.length_eq_zero_iff] at hlength
    exact absurd hlength (RunTrace.rounds_ne htrace)
  cases hout : g.result.outcome with
  | ok out =>
    cases hout' : g'.result.outcome with
    | ok out' => exact h.returned_eq hm htrace htrace' hout hout'
    | error e' =>
      rw [failure_of_ok hout, failure_of_error hout'] at hfailure
      cases hfailure
  | error e =>
    cases hout' : g'.result.outcome with
    | ok out' =>
      rw [failure_of_error hout, failure_of_ok hout'] at hfailure
      cases hfailure
    | error e' =>
      rw [failure_of_error hout, failure_of_error hout', Option.some.injEq] at hfailure
      obtain ⟨_, _, _, hf⟩ := failed_of_error htrace hout
      obtain ⟨_, _, _, hf'⟩ := failed_of_error htrace' hout'
      exact h.failed_eq hm hlimit hf hf' hfailure

def replying (prompt : String) (response : AIResponse) : Generation :=
  { client := { AIClient.plainClient with options := { maxModelRounds := 1 }, rounds_ne := by decide }
    env := { runId := "run-1", generateOnce := fun _ _ => .ok response
             invoke := fun _ _ _ _ _ => .error .unknown, schedule := fun _ => [] }
    session := { id := "session-1" }
    input := .userText prompt }

theorem replying_setting (prompt prompt' : String) (response response' : AIResponse) :
    SameSetting (replying prompt response) (replying prompt' response') :=
  ⟨rfl, rfl, rfl, rfl, rfl, rfl, rfl, rfl⟩

/-- The provider's response is from the user in one run and from the assistant in the other. -/
theorem role_traced :
    SameSetting (replying "hello" { message := .assistantText "wait", requiresContinuation := true })
        (replying "hello" { message := .userText "wait", requiresContinuation := true }) ∧
      SameMetadata (replying "hello" { message := .assistantText "wait", requiresContinuation := true })
        (replying "hello" { message := .userText "wait", requiresContinuation := true }) ∧
      (replying "hello" { message := .assistantText "wait", requiresContinuation := true }).events ≠
        (replying "hello" { message := .userText "wait", requiresContinuation := true }).events := by
  refine ⟨replying_setting _ _ _ _, ⟨rfl, rfl⟩, ?_⟩
  intro h
  have hlength := congrArg List.length h
  revert hlength
  decide

theorem metadata_only_texts :
    (replying "hello" { message := .assistantText "wait", requiresContinuation := true }).events =
        (replying "good morning" { message := .assistantText "one moment", requiresContinuation := true }).events ∧
      ∀ e ∈ (replying "hello" { message := .assistantText "wait", requiresContinuation := true }).events,
        e.payload = "" := by
  have hat : (replying "hello" { message := .assistantText "wait", requiresContinuation := true }).AtLimit :=
    ⟨[], _, _, rfl, nofun, rfl⟩
  have hat' : (replying "good morning" { message := .assistantText "one moment", requiresContinuation := true }).AtLimit :=
    ⟨[], _, _, rfl, nofun, rfl⟩
  exact metadata_only (replying_setting _ _ _ _) ⟨rfl, rfl⟩ (iff_of_true hat hat')

end Generation

end NeuralPlus
