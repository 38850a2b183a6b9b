import NeuralPlus.ExecTools
import NeuralPlus.Loop

/-!
# The conversation loop

`AIClient::generate`. What the client calls out to is the environment of the
run: the provider's answer to each request, what each tool does when it is
invoked, and how the executions of a round are scheduled. The result is the
session the run leaves behind, what it returned or threw, and a log of what it did.
-/

namespace NeuralPlus

open Fallible

structure RunEnv where
  runId : String
  /-- `generate_once`, for the request of each round -/
  generateOnce : Nat → AIRequest → Except Exc AIResponse
  /-- each tool object, for each round and each call of the round -/
  invoke : Nat → Nat → Nat → ToolContext → JsonValue → Except Exc ToolOutput
  schedule : Nat → List ExecAct

/-! ## What a run leaves behind -/

/-- One provider round: its request, the response unless `generate_once` threw, the executions
of the response's calls, and whether the response's message was appended to the session. -/
structure Round where
  request : AIRequest
  response : Option AIResponse := none
  executions : List ToolExecution := []
  appended : Bool := false

structure RunLog where
  rounds : List Round := []
  events : List TraceEvent := []

def RunLog.add (log : RunLog) (round : Round) (events : List TraceEvent) : RunLog :=
  { rounds := log.rounds ++ [round], events := log.events ++ events }

inductive LoopOutcome where
  | returned (response : AIResponse)
  | threw (e : Exc)
  | fellThrough

structure LoopExit where
  outcome : LoopOutcome
  session : Session
  log : RunLog

structure LoopState where
  session : Session
  round : SizeT := 1
  cumulativeUsage : TokenUsage := {}
  cumulativeToolCalls : SizeT := 0
  log : RunLog

structure GenerateResult where
  session : Session
  outcome : Except Exc AIResponse
  log : RunLog := {}

def toolResult (execution : ToolExecution) : Except Exc Message := do
  let message ← Message.tool execution.call.id execution.call.name execution.output.contents execution.output.isError
  return message.setProviderMetadata execution.call.providerMetadata

/-- Append the results in request order; what was appended before an exception stays. -/
def appendResults (session : Session) : List ToolExecution → Session × Except Exc Unit
  | [] => (session, .ok ())
  | execution :: executions =>
    match toolResult execution with
    | .error e => (session, .error e)
    | .ok message =>
      match session.appendFromClient message with
      | .error e => (session, .error e)
      | .ok session => appendResults session executions

namespace AIClient

variable (client : AIClient) (env : RunEnv)

/-! ## Events -/

def event (type : TraceEventType) (sessionId : String) : TraceEvent :=
  makeEvent type sessionId env.runId client.model.id

def generationStart (sessionId : String) (input : Message) : TraceEvent :=
  ((client.event env .generationStart sessionId).setAttribute "input_role" (.string input.role.toString)).capture
    client.options.captureTracePayloads input.text

def providerStart (round : SizeT) (request : AIRequest) : TraceEvent :=
  ((({ client.event env .providerStart request.sessionId with operationId := "round-" ++ toString round.toNat }
    |>.setAttribute "round" (.unsigned round))
    |>.setAttribute "message_count" (.unsigned (.ofNat request.messages.length)))
    |>.setAttribute "tool_count" (.unsigned (.ofNat request.tools.length)))

def providerEnd (round : SizeT) (request : AIRequest) (response : AIResponse) : TraceEvent :=
  ((((({ client.event env .providerEnd request.sessionId with operationId := "round-" ++ toString round.toNat }
    |>.setAttribute "round" (.unsigned round))
    |>.setAttribute "finish_reason" (.string response.finishReason.toString))
    |>.setAttribute "tool_call_count" (.unsigned (.ofNat response.message.toolCalls.length)))
    |>.setAttribute "requires_continuation" (.boolean response.requiresContinuation))
    |>.setAttribute "provider_request_id" (.string response.providerRequestId)).capture
      client.options.captureTracePayloads response.message.text

def generationEnd (sessionId : String) (level : TraceLevel) (round toolCalls : SizeT) (finishReason : String) :
    TraceEvent :=
  ((({ client.event env .generationEnd sessionId with level }
    |>.setAttribute "model_rounds" (.unsigned round))
    |>.setAttribute "tool_calls" (.unsigned toolCalls))
    |>.setAttribute "finish_reason" (.string finishReason))

def errorEvent (sessionId : String) (e : Exc) : TraceEvent :=
  ({ client.event env .error sessionId with level := .error }
    |>.setAttribute "category" (.string (if e.what?.isSome then "exception" else "unknown_exception"))).capture
      client.options.captureTracePayloads (e.what?.getD "unknown generation error")

def toolEvents (site : ToolSite) (calls : List ToolCall) (executions : List ToolExecution) (marks : List ExecMark) :
    List TraceEvent :=
  marks.filterMap fun mark =>
    match mark with
    | .started index => (calls[index]?).map (toolStart site)
    | .ended index => (executions[index]?).map ToolExecution.toolEnd

/-! ## One round -/

def makeRequest (options : GenerateOptions) (session : Session) : AIRequest :=
  { sessionId := session.id
    runId := env.runId
    systemMessage := session.systemMessage
    messages := session.messages
    tools := client.toolSpecs
    options :=
      -- the model's limit stands in for one that the call does not give
      if options.maxOutputTokens = none ∧ client.model.maxOutputTokens ≠ none then
        { options with maxOutputTokens := client.model.maxOutputTokens }
      else options }

def protocolError (message code requestId : String) : Exc :=
  .provider message client.model.provider 0 code requestId

def checkCallIds (requestId : String) : List String → List ToolCall → Except Exc Unit
  | _, [] => .ok ()
  | callIds, call :: calls =>
    if call.id = "" ∨ call.name = "" then
      .error (client.protocolError "provider returned a tool call without id or name" "" requestId)
    else if call.id ∈ callIds then
      .error (client.protocolError ("provider returned duplicate tool call id: " ++ call.id) "" requestId)
    else checkCallIds requestId (call.id :: callIds) calls

def remainingCalls (cumulativeToolCalls : SizeT) : SizeT :=
  client.options.maxToolCallsPerGeneration - min cumulativeToolCalls client.options.maxToolCallsPerGeneration

def acceptResponse (s : LoopState) (response : AIResponse) : Except Exc TokenUsage := do
  throwIf (response.message.role ≠ .assistant)
    (client.protocolError "provider response message must have assistant role" "" response.providerRequestId)
  throwIf (response.message.toolCalls.length > (client.remainingCalls s.cumulativeToolCalls).toNat)
    (client.protocolError "provider requested more tool calls than the configured generation limit"
      "tool_call_limit" response.providerRequestId)
  client.checkCallIds response.providerRequestId [] response.message.toolCalls
  addUsage s.cumulativeUsage response.usage (s.round = 1)

def site (sessionId : String) (round index : Nat) : ToolSite :=
  { sessionId, runId := env.runId, invoke := env.invoke round index }

def runCalls (s : LoopState) (request : AIRequest) (events : List TraceEvent) (response : AIResponse)
    (usage : TokenUsage) (session : Session) : Loop.Pass LoopState LoopExit :=
  let calls := response.message.toolCalls
  let n := s.log.rounds.length
  let (result, marks) := client.executeTools (site env session.id n) calls (env.schedule n)
  match result with
  -- the message with the calls stays in the session, without results
  | .error e => .leave ⟨.threw e, session, s.log.add ⟨request, some response, [], true⟩ events⟩
  | .ok executions =>
    let events := events ++ toolEvents (site env session.id n 0) calls executions marks
    let toolCalls := s.cumulativeToolCalls + .ofNat executions.length
    let round : Round := ⟨request, some response, executions, true⟩
    match appendResults session executions with
    | (session, .error e) => .leave ⟨.threw e, session, s.log.add round events⟩
    | (session, .ok ()) =>
      -- stop_on_tool_error: all results are kept, and no further round is made
      if executions.any (·.output.isError) && client.options.stopOnToolError then
        .leave ⟨.returned { response with
            finishReason := .error, usage, modelRounds := s.round, toolCalls }, session,
          s.log.add round (events ++ [client.generationEnd env session.id .warning s.round toolCalls "error"])⟩
      else
        .again { session, round := s.round + 1, cumulativeUsage := usage, cumulativeToolCalls := toolCalls,
                 log := s.log.add round events }

def loopBody (options : GenerateOptions) (s : LoopState) : Loop.Pass LoopState LoopExit :=
  if s.round ≤ client.options.maxModelRounds then
    let request := client.makeRequest env options s.session
    let start := client.providerStart env s.round request
    match env.generateOnce s.log.rounds.length request with
    | .error e => .leave ⟨.threw e, s.session, s.log.add ⟨request, none, [], false⟩ [start]⟩
    | .ok response =>
      match client.acceptResponse s response with
      | .error e => .leave ⟨.threw e, s.session, s.log.add ⟨request, some response, [], false⟩ [start]⟩
      | .ok usage =>
        let events := [start, client.providerEnd env s.round request response]
        let calls := response.message.toolCalls
        -- the last permitted round: a response that needs another one is not retained
        if (!calls.isEmpty || response.requiresContinuation) && s.round = client.options.maxModelRounds then
          .leave ⟨.threw (.maxRounds
              "maximum model rounds reached before provider continuation could be completed"),
            s.session, s.log.add ⟨request, some response, [], false⟩ events⟩
        else
          match s.session.appendFromClient response.message with
          | .error e => .leave ⟨.threw e, s.session, s.log.add ⟨request, some response, [], false⟩ events⟩
          | .ok session =>
            if calls.isEmpty && !response.requiresContinuation then
              .leave ⟨.returned { response with
                  usage, modelRounds := s.round, toolCalls := s.cumulativeToolCalls }, session,
                s.log.add ⟨request, some response, [], true⟩ (events ++ [client.generationEnd env session.id .info
                  s.round s.cumulativeToolCalls response.finishReason.toString])⟩
            -- a pause: the message stays, and the next request carries it back
            else if calls.isEmpty then
              .again { session, round := s.round + 1, cumulativeUsage := usage,
                       cumulativeToolCalls := s.cumulativeToolCalls,
                       log := s.log.add ⟨request, some response, [], true⟩ events }
            else client.runCalls env s request events response usage session
  else .leave ⟨.fellThrough, s.session, s.log⟩

/-! ## The generation -/

def roundLoop (options : GenerateOptions) (session : Session) (log : RunLog) : Option LoopExit :=
  Loop.run (client.loopBody env options) (client.options.maxModelRounds.toNat + 1) { session, log }

def begin (session : Session) (input : Message) (options : GenerateOptions) : Except Exc Session := do
  client.validateInput input
  validateOptions options
  session.acquire

def conclude (exit : LoopExit) : GenerateResult :=
  let fail (e : Exc) : GenerateResult :=
    { session := exit.session.release, outcome := .error e,
      log := { exit.log with events := exit.log.events ++ [client.errorEvent env exit.session.id e] } }
  match exit.outcome with
  | .returned response => { session := exit.session.release, outcome := .ok response, log := exit.log }
  | .threw e => fail e
  | .fellThrough => fail (.maxRounds "maximum model rounds exceeded without a final response")

def generate (session : Session) (input : Message) (options : GenerateOptions) : GenerateResult :=
  match client.begin session input options with
  | .error e => { session, outcome := .error e }
  | .ok leased =>
    let log : RunLog := { events := [client.generationStart env leased.id input] }
    match leased.appendFromClient input with
    | .error e => { session := leased.release, outcome := .error e, log }
    | .ok opened =>
      match client.roundLoop env options opened log with
      | some exit => client.conclude env exit
      | none => { session := opened.release, outcome := .error .unknown, log }  -- the bound of `roundLoop` is enough

end AIClient

end NeuralPlus
