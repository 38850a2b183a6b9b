import NeuralPlus.AnthropicSound
import NeuralPlus.Handoff
import NeuralPlus.SharedSession

/-!
# Restored sessions

A session that is made of what another one left, its system message and its
messages, goes on as the other would have. Its id is a label: a run hands it
to the provider, the tools and the tracers, and depends on nothing of it.
-/

namespace NeuralPlus

open Fallible

/-! ## Jobs with other results -/

section
variable {α ρ ρ' : Type}

def ExecState.map (f : ρ → ρ') (s : ExecState ρ) : ExecState ρ' :=
  { pc := s.pc, tasks := s.tasks, results := s.results.map f, log := s.log }

namespace ExecJob

def map (f : ρ → ρ') (job : ExecJob α ρ) : ExecJob α ρ' :=
  { parallelToolCalls := job.parallelToolCalls
    maxParallelToolCalls := job.maxParallelToolCalls
    calls := job.calls
    execute := fun i call => (job.execute i call).map f }

variable (f : ρ → ρ') (job : ExecJob α ρ) (s : ExecState ρ)

theorem result_map (i : Nat) : (job.map f).result i = (job.result i).map (Except.map f) := by
  unfold result map
  dsimp only
  cases job.calls[i]? <;> rfl

theorem push_map (i : Nat) (next : ExecPc) : (job.map f).push (s.map f) i next = (job.push s i next).map (ExecState.map f) := by
  unfold push
  rw [result_map]
  cases job.result i with
  | none => rfl
  | some r =>
    cases r with
    | error e => rfl
    | ok r => simp [Except.map, ExecState.map]

theorem main_map : (job.map f).main (s.map f) = (job.main s).map (ExecState.map f) := by
  obtain ⟨pc, tasks, results, log⟩ := s
  unfold main
  cases pc with
  | inThread i =>
    show (if i < job.size then _ else _) = Option.map _ (if i < job.size then _ else _)
    split <;> rfl
  | batch offset =>
    show (if offset < job.size then _ else _) = Option.map _ (if offset < job.size then _ else _)
    split <;> rfl
  | launching offset i =>
    show (if i < job.stop offset then _ else _) = Option.map _ (if i < job.stop offset then _ else _)
    split <;> rfl
  | collecting offset next stop launchFailed =>
    show (if next < stop then if tasks next = .done then _ else none else if launchFailed then _ else _) =
      Option.map _ (if next < stop then if tasks next = .done then _ else none else if launchFailed then _ else _)
    by_cases hnext : next < stop
    · rw [if_pos hnext, if_pos hnext]
      by_cases hdone : tasks next = .done
      · rw [if_pos hdone, if_pos hdone]
        exact push_map f job _ next _
      · rw [if_neg hdone, if_neg hdone]
        rfl
    · rw [if_neg hnext, if_neg hnext]
      split <;> rfl
  | unwinding e =>
    dsimp only [ExecState.map]
    show (if (List.range job.size).all (fun i => tasks i = .idle ∨ tasks i = .done) then _ else none) =
      Option.map _ (if (List.range job.size).all (fun i => tasks i = .idle ∨ tasks i = .done) then _ else none)
    split <;> rfl
  | busy _ => rfl
  | returned => rfl
  | threw e => rfl

theorem finish_map (i : Nat) : (job.map f).finish (s.map f) i = (job.finish s i).map (ExecState.map f) := by
  unfold finish
  show (if s.pc = .busy i then _ else _) = Option.map _ (if s.pc = .busy i then _ else _)
  by_cases hpc : s.pc = .busy i
  · rw [if_pos hpc, if_pos hpc]
    exact push_map f job { mark s i .done with log := s.log ++ [.ended i] } i _
  · rw [if_neg hpc, if_neg hpc]
    rfl

theorem step_map (a : ExecAct) : (job.map f).step (s.map f) a = (job.step s a).map (ExecState.map f) := by
  cases a with
  | main => exact main_map f job s
  | launchFails =>
    obtain ⟨pc, tasks, results, log⟩ := s
    cases pc with
    | launching offset i =>
      show (if i < job.stop offset then _ else none) = Option.map _ (if i < job.stop offset then _ else none)
      split <;> rfl
    | _ => rfl
  | start i =>
    show (if s.tasks i = .ready then _ else none) = Option.map _ (if s.tasks i = .ready then _ else none)
    split <;> rfl
  | finish i =>
    show (if s.tasks i = .running then _ else none) = Option.map _ (if s.tasks i = .running then _ else none)
    by_cases hrunning : s.tasks i = .running
    · rw [if_pos hrunning, if_pos hrunning]
      exact finish_map f job s i
    · rw [if_neg hrunning, if_neg hrunning]
      rfl

theorem step_map_getD (a : ExecAct) :
    ((job.map f).step (s.map f) a).getD (s.map f) = ((job.step s a).getD s).map f := by
  rw [step_map]
  cases job.step s a <;> rfl

theorem follow_map (schedule : List ExecAct) : (job.map f).follow (s.map f) schedule = (job.follow s schedule).map f := by
  induction schedule generalizing s with
  | nil => rfl
  | cons a schedule ih =>
    unfold follow
    rw [step_map_getD, ih]

theorem choose_map : (job.map f).choose (s.map f) = job.choose s := by
  unfold choose
  have hsome : (fun a => ((job.map f).step (s.map f) a).isSome) = fun a => (job.step s a).isSome := by
    funext a
    rw [step_map, Option.isSome_map]
  rw [hsome]
  rfl

theorem drain_map (n : Nat) : (job.map f).drain n (s.map f) = (job.drain n s).map f := by
  induction n generalizing s with
  | zero => rfl
  | succ n ih =>
    unfold drain
    rw [choose_map]
    cases job.choose s with
    | none => rfl
    | some a =>
      dsimp only
      rw [step_map_getD, ih]

/-- What the executions give has no part in how they are scheduled. -/
theorem run_map (schedule : List ExecAct) : (job.map f).run schedule = (job.run schedule).map f := by
  unfold run
  have hinit : (job.map f).init = job.init.map f := rfl
  rw [hinit, follow_map, show (job.map f).fuel = job.fuel from rfl, drain_map]

end ExecJob

end

/-! ## Labels -/

def Session.relabel (id : String) (s : Session) : Session := { s with id }

def AIRequest.relabel (id : String) (r : AIRequest) : AIRequest := { r with sessionId := id }

def ToolContext.relabel (id : String) (c : ToolContext) : ToolContext := { c with sessionId := id }

def TraceEvent.relabel (id : String) (e : TraceEvent) : TraceEvent := { e with sessionId := id }

def Invocation.relabel (id : String) (i : Invocation) : Invocation := { i with context := i.context.relabel id }

def ToolExecution.relabel (id : String) (x : ToolExecution) : ToolExecution :=
  { x with invocations := x.invocations.map (Invocation.relabel id), toolEnd := x.toolEnd.relabel id }

def Round.relabel (id : String) (r : Round) : Round :=
  { r with request := r.request.relabel id, executions := r.executions.map (ToolExecution.relabel id) }

def RunLog.relabel (id : String) (log : RunLog) : RunLog :=
  { rounds := log.rounds.map (Round.relabel id), events := log.events.map (TraceEvent.relabel id) }

def LoopState.relabel (id : String) (s : LoopState) : LoopState :=
  { s with session := s.session.relabel id, log := s.log.relabel id }

def LoopExit.relabel (id : String) (exit : LoopExit) : LoopExit :=
  { exit with session := exit.session.relabel id, log := exit.log.relabel id }

def GenerateResult.relabel (id : String) (result : GenerateResult) : GenerateResult :=
  { result with session := result.session.relabel id, log := result.log.relabel id }

/-- Neither the provider nor a tool looks at the session's id. -/
structure RunEnv.IgnoresLabel (env : RunEnv) : Prop where
  generateOnce : ∀ n id request, env.generateOnce n (request.relabel id) = env.generateOnce n request
  invoke : ∀ round index tool id context arguments,
    env.invoke round index tool (context.relabel id) arguments = env.invoke round index tool context arguments

@[simp] theorem RunLog.add_relabel (id : String) (log : RunLog) (round : Round) (events : List TraceEvent) :
    (log.add round events).relabel id = (log.relabel id).add (round.relabel id) (events.map (TraceEvent.relabel id)) := by
  simp [RunLog.add, RunLog.relabel]

theorem TraceEvent.capture_relabel (id : String) (e : TraceEvent) (b : Bool) (payload : String) :
    (e.capture b payload).relabel id = (e.relabel id).capture b payload := by
  cases b <;> rfl

theorem appendFromClient_relabel (id : String) (session : Session) (m : Message) :
    (session.relabel id).appendFromClient m = (session.appendFromClient m).map (Session.relabel id) := by
  unfold Session.appendFromClient throwIf
  split <;> rfl

theorem appendResults_relabel (id : String) (session : Session) (executions : List ToolExecution) :
    appendResults (session.relabel id) (executions.map (ToolExecution.relabel id)) =
      ((appendResults session executions).1.relabel id, (appendResults session executions).2) := by
  induction executions generalizing session with
  | nil => rfl
  | cons x executions ih =>
    rw [List.map_cons, appendResults, appendResults, show toolResult (x.relabel id) = toolResult x from rfl]
    cases toolResult x with
    | error e => rfl
    | ok m =>
      dsimp only
      rw [appendFromClient_relabel]
      cases session.appendFromClient m with
      | error e => rfl
      | ok session => exact ih session

namespace AIClient

variable {client : AIClient} {env : RunEnv} {options : GenerateOptions}

section
variable (id sid : String)

theorem generationStart_relabel (input : Message) :
    client.generationStart env id input = (client.generationStart env sid input).relabel id := by
  unfold generationStart
  rw [TraceEvent.capture_relabel]
  rfl

theorem providerEnd_relabel (round : SizeT) (request : AIRequest) (response : AIResponse) :
    client.providerEnd env round (request.relabel id) response =
      (client.providerEnd env round request response).relabel id := by
  unfold providerEnd
  rw [TraceEvent.capture_relabel]
  rfl

theorem errorEvent_relabel (e : Exc) : client.errorEvent env id e = (client.errorEvent env sid e).relabel id := by
  unfold errorEvent
  rw [TraceEvent.capture_relabel]
  rfl

theorem toolEnd_relabel (n i : Nat) (call : ToolCall) (output : ToolOutput) (diagnostic : String) :
    client.toolEnd (site env id n i) call output diagnostic =
      (client.toolEnd (site env sid n i) call output diagnostic).relabel id := by
  unfold toolEnd
  rw [TraceEvent.capture_relabel]
  rfl

/-! ## Tools -/

variable (henv : env.IgnoresLabel)
include henv

theorem invokeTool_relabel (n i : Nat) (call : ToolCall) (implementation : Nat) :
    invokeTool (site env id n i) call implementation = invokeTool (site env sid n i) call implementation := by
  have hinvoke : env.invoke n i implementation ⟨id, env.runId, call.id⟩ call.arguments =
      env.invoke n i implementation ⟨sid, env.runId, call.id⟩ call.arguments :=
    henv.invoke n i implementation id ⟨sid, env.runId, call.id⟩ call.arguments
  unfold invokeTool site
  dsimp only
  rw [hinvoke]

theorem executeTool_relabel (n i : Nat) (call : ToolCall) : client.executeTool (site env id n i) call =
    (client.executeTool (site env sid n i) call).map (ToolExecution.relabel id) := by
  unfold executeTool
  dsimp only
  cases client.registry.find? call.name with
  | none =>
    rw [toolEnd_relabel id sid]
    rfl
  | some tool =>
    dsimp only
    by_cases hvalid : call.argumentsValid = false
    · rw [if_pos hvalid, if_pos hvalid, toolEnd_relabel id sid]
      rfl
    · rw [if_neg hvalid, if_neg hvalid]
      cases validateValueAgainstSchema call.arguments tool.spec.inputSchema "$" with
      | error e => rfl
      | ok error =>
        simp only [ok_bind]
        by_cases herror : error ≠ ""
        · rw [if_pos herror, if_pos herror, toolEnd_relabel id sid]
          rfl
        · rw [if_neg herror, if_neg herror, invokeTool_relabel id sid henv, toolEnd_relabel id sid]
          rfl

theorem executeTools_relabel (n : Nat) (calls : List ToolCall) (schedule : List ExecAct) :
    client.executeTools (site env id n) calls schedule =
      ((client.executeTools (site env sid n) calls schedule).1.map (List.map (ToolExecution.relabel id)),
        (client.executeTools (site env sid n) calls schedule).2) := by
  have hjob : client.execJob (site env id n) calls =
      (client.execJob (site env sid n) calls).map (ToolExecution.relabel id) := by
    unfold execJob ExecJob.map
    congr 1
    funext i call
    exact executeTool_relabel id sid henv n i call
  unfold executeTools
  rw [hjob, ExecJob.run_map]
  dsimp only [ExecState.map]
  split <;> rfl

end

theorem toolEvents_relabel (id sid : String) (n : Nat) (calls : List ToolCall) (executions : List ToolExecution)
    (marks : List ExecMark) :
    toolEvents (site env id n 0) calls (executions.map (ToolExecution.relabel id)) marks =
      (toolEvents (site env sid n 0) calls executions marks).map (TraceEvent.relabel id) := by
  unfold toolEvents
  rw [List.map_filterMap]
  apply List.filterMap_congr
  intro mark _
  cases mark with
  | started index =>
    dsimp only
    rw [Option.map_map]
    rfl
  | ended index =>
    dsimp only
    rw [List.getElem?_map, Option.map_map, Option.map_map]
    rfl

/-! ## The loop -/

variable (henv : env.IgnoresLabel) (id : String)
include henv

theorem runCalls_relabel (s : LoopState) (request : AIRequest) (events : List TraceEvent) (response : AIResponse)
    (usage : TokenUsage) (session : Session) :
    client.runCalls env (s.relabel id) (request.relabel id) (events.map (TraceEvent.relabel id)) response usage
        (session.relabel id) =
      (client.runCalls env s request events response usage session).map (LoopState.relabel id) (LoopExit.relabel id) := by
  have hrounds : (s.relabel id).log.rounds.length = s.log.rounds.length := List.length_map ..
  unfold runCalls
  dsimp only
  rw [hrounds, show (session.relabel id).id = id from rfl, executeTools_relabel id session.id henv]
  obtain ⟨result, marks⟩ := client.executeTools (site env session.id s.log.rounds.length) response.message.toolCalls
    (env.schedule s.log.rounds.length)
  cases result with
  | error e => simp [Except.map, Loop.Pass.map, LoopExit.relabel, LoopState.relabel, Round.relabel]
  | ok executions =>
    dsimp only [Except.map]
    rw [appendResults_relabel, toolEvents_relabel id session.id]
    rw [List.any_map, List.length_map, ← List.map_append]
    obtain ⟨after, appended⟩ := appendResults session executions
    cases appended with
    | error e => simp only [Loop.Pass.map, LoopExit.relabel, RunLog.add_relabel, LoopState.relabel, Round.relabel]
    | ok _ =>
      dsimp only
      have hany : ((fun x : ToolExecution => x.output.isError) ∘ ToolExecution.relabel id) = fun x => x.output.isError := rfl
      rw [hany]
      split
      · simp only [Loop.Pass.map, LoopExit.relabel, RunLog.add_relabel, LoopState.relabel, Round.relabel, List.map_append]
        rfl
      · simp only [Loop.Pass.map, RunLog.add_relabel, LoopState.relabel, Round.relabel]

theorem loopBody_relabel (s : LoopState) :
    client.loopBody env options (s.relabel id) =
      (client.loopBody env options s).map (LoopState.relabel id) (LoopExit.relabel id) := by
  have hrounds : (s.relabel id).log.rounds.length = s.log.rounds.length := List.length_map ..
  have hrequest : client.makeRequest env options (s.relabel id).session =
      (client.makeRequest env options s.session).relabel id := rfl
  have hstart : client.providerStart env s.round ((client.makeRequest env options s.session).relabel id) =
      (client.providerStart env s.round (client.makeRequest env options s.session)).relabel id := rfl
  unfold loopBody
  rw [show (s.relabel id).round = s.round from rfl]
  by_cases hround : s.round ≤ client.options.maxModelRounds
  · rw [if_pos hround, if_pos hround]
    dsimp only
    rw [hrounds, hrequest, henv.generateOnce, hstart]
    cases env.generateOnce s.log.rounds.length (client.makeRequest env options s.session) with
    | error e => simp [Loop.Pass.map, LoopExit.relabel, LoopState.relabel, Round.relabel]
    | ok response =>
      dsimp only
      rw [show client.acceptResponse (s.relabel id) response = client.acceptResponse s response from rfl]
      cases client.acceptResponse s response with
      | error e => simp [Loop.Pass.map, LoopExit.relabel, LoopState.relabel, Round.relabel]
      | ok usage =>
        dsimp only
        rw [providerEnd_relabel]
        by_cases hlast : ((!response.message.toolCalls.isEmpty || response.requiresContinuation) &&
            decide (s.round = client.options.maxModelRounds)) = true
        · rw [if_pos hlast, if_pos hlast]
          simp [Loop.Pass.map, LoopExit.relabel, LoopState.relabel, Round.relabel]
        · rw [if_neg hlast, if_neg hlast, show (s.relabel id).session = s.session.relabel id from rfl,
            appendFromClient_relabel]
          cases s.session.appendFromClient response.message with
          | error e => simp [Except.map, Loop.Pass.map, LoopExit.relabel, LoopState.relabel, Round.relabel]
          | ok session =>
            dsimp only [Except.map]
            by_cases hanswered : (response.message.toolCalls.isEmpty && !response.requiresContinuation) = true
            · rw [if_pos hanswered, if_pos hanswered]
              simp only [Loop.Pass.map, LoopExit.relabel, RunLog.add_relabel, LoopState.relabel, Round.relabel,
                List.map_append]
              rfl
            · rw [if_neg hanswered, if_neg hanswered]
              by_cases hcalls : response.message.toolCalls.isEmpty = true
              · rw [if_pos hcalls, if_pos hcalls]
                simp [Loop.Pass.map, LoopState.relabel, Round.relabel]
              · rw [if_neg hcalls, if_neg hcalls]
                exact runCalls_relabel henv id s _ [_, _] response usage session
  · rw [if_neg hround, if_neg hround]
    rfl

omit henv in
theorem conclude_relabel (exit : LoopExit) :
    client.conclude env (exit.relabel id) = (client.conclude env exit).relabel id := by
  have hevent (e : Exc) : client.errorEvent env id e = (client.errorEvent env exit.session.id e).relabel id :=
    errorEvent_relabel id exit.session.id e
  obtain ⟨outcome, session, log⟩ := exit
  cases outcome with
  | returned response => rfl
  | threw e =>
    show GenerateResult.mk _ _ { log.relabel id with events := log.events.map (TraceEvent.relabel id) ++
      [client.errorEvent env id e] } = GenerateResult.relabel id _
    rw [hevent]
    simp [conclude, GenerateResult.relabel, RunLog.relabel]
    rfl
  | fellThrough =>
    show GenerateResult.mk _ _ { log.relabel id with events := log.events.map (TraceEvent.relabel id) ++
      [client.errorEvent env id _] } = GenerateResult.relabel id _
    rw [hevent]
    simp [conclude, GenerateResult.relabel, RunLog.relabel]
    rfl

omit henv in
theorem begin_relabel (session : Session) (input : Message) :
    client.begin (session.relabel id) input options = (client.begin session input options).map (Session.relabel id) := by
  have hacquire : (session.relabel id).acquire = session.acquire.map (Session.relabel id) := by
    unfold Session.acquire throwIf
    rw [show (session.relabel id).active = session.active from rfl]
    split <;> rfl
  unfold begin
  cases client.validateInput input with
  | error e => rfl
  | ok _ =>
    cases validateOptions options with
    | error e => rfl
    | ok _ => exact hacquire

/-- **A run depends on nothing of the session's id.** -/
theorem generate_relabel (session : Session) (input : Message) :
    client.generate env (session.relabel id) input options = (client.generate env session input options).relabel id := by
  unfold generate
  rw [begin_relabel]
  cases client.begin session input options with
  | error e => rfl
  | ok leased =>
    have hlog : ({ events := [client.generationStart env (leased.relabel id).id input] } : RunLog) =
        RunLog.relabel id { events := [client.generationStart env leased.id input] } :=
      congrArg (fun e => ({ events := [e] } : RunLog)) (generationStart_relabel id leased.id input)
    dsimp only [Except.map]
    rw [appendFromClient_relabel, hlog]
    cases leased.appendFromClient input with
    | error e => rfl
    | ok opened =>
      have hloop : client.roundLoop env options (opened.relabel id)
          (RunLog.relabel id { events := [client.generationStart env leased.id input] }) =
          (client.roundLoop env options opened { events := [client.generationStart env leased.id input] }).map
            (LoopExit.relabel id) := by
        unfold roundLoop
        exact Loop.run_map (loopBody_relabel henv id) _ { session := opened, log := _ }
      dsimp only [Except.map]
      rw [hloop]
      cases client.roundLoop env options opened { events := [client.generationStart env leased.id input] } with
      | none => rfl
      | some exit => exact conclude_relabel id exit

end AIClient

/-- A built-in client sends nothing of the session's id. -/
theorem BuiltInClient.ignoresLabel {json : JsonText} (client : BuiltInClient) {call : Call}
    (hinvoke : ∀ round index tool id context arguments,
      call.invoke round index tool (context.relabel id) arguments = call.invoke round index tool context arguments) :
    (client.env json call).IgnoresLabel where
  generateOnce := by
    intro n id request
    show client.adapter.generateOnce json _ (request.relabel id) = client.adapter.generateOnce json _ request
    rw [Adapter.generateOnce_eq, Adapter.generateOnce_eq]
    cases client.adapter <;> rfl
  invoke := hinvoke

/-! ## Calls -/

def SessionAnswer.relabel (id : String) : SessionAnswer → SessionAnswer
  | .generated outcome log => .generated outcome (log.relabel id)
  | .changed outcome => .changed outcome

structure Restorable (s : Session) : Prop where
  idle : s.active = false
  system : s.systemMessage ≠ some ""
  messages : ∀ m ∈ s.messages, m.role ≠ .system

theorem Restorable.of_make {generated : String} {o : SessionOptions} {s : Session} (h : Session.make generated o = .ok s) :
    Restorable s := by
  simp only [Session.make, bind_eq_ok, throwIf_eq_ok, pure_eq_ok, Except.ok.injEq] at h
  obtain ⟨_, hsystem, _, hmessages, rfl⟩ := h
  exact ⟨rfl, hsystem, by simpa using hmessages⟩

theorem Restorable.make {s : Session} (h : Restorable s) (generated id : String) :
    Session.make generated { id, systemMessage := s.systemMessage, messages := s.messages } =
      .ok (s.relabel (if id = "" then generated else id)) := by
  have hmessages : ¬ (s.messages.any fun m => m.role = .system) = true := by simpa using h.messages
  unfold Session.make
  rw [throwIf, if_neg h.system, ok_bind, throwIf, if_neg hmessages, ok_bind]
  show Except.ok _ = _
  rw [Session.relabel, h.idle]

namespace SessionCall

def IgnoresLabel : SessionCall → Prop
  | generate _ env _ _ => env.IgnoresLabel
  | append _ | setSystem _ | clearMessages => True

theorem attempt_map (id : String) (session : Session) (outcome : Except Exc Session) :
    attempt (session.relabel id) (outcome.map (Session.relabel id)) =
      ((attempt session outcome).1.relabel id, (attempt session outcome).2.relabel id) := by
  cases outcome <;> rfl

theorem apply_relabel (id : String) (session : Session) {call : SessionCall} (h : call.IgnoresLabel) :
    apply (session.relabel id) call = ((apply session call).1.relabel id, (apply session call).2.relabel id) := by
  cases call with
  | generate client env input options =>
    unfold apply
    dsimp only
    rw [AIClient.generate_relabel h]
    rfl
  | append m =>
    have happend : (session.relabel id).append m = (session.append m).map (Session.relabel id) := by
      unfold Session.append Session.requireIdle throwIf
      rw [show (session.relabel id).active = session.active from rfl]
      split <;> split <;> rfl
    show attempt _ _ = _
    rw [happend]
    exact attempt_map id session _
  | setSystem text =>
    have hset : (session.relabel id).setSystem text = (session.setSystem text).map (Session.relabel id) := by
      unfold Session.setSystem Session.requireIdle throwIf
      rw [show (session.relabel id).active = session.active from rfl,
        show (session.relabel id).messages = session.messages from rfl]
      split <;> split <;> split <;> rfl
    show attempt _ _ = _
    rw [hset]
    exact attempt_map id session _
  | clearMessages =>
    have hclear : (session.relabel id).clearMessages = session.clearMessages.map (Session.relabel id) := by
      unfold Session.clearMessages Session.requireIdle throwIf
      rw [show (session.relabel id).active = session.active from rfl]
      split <;> rfl
    show attempt _ _ = _
    rw [hclear]
    exact attempt_map id session _

theorem applyAll_relabel (id : String) (session : Session) {calls : List SessionCall}
    (h : ∀ call ∈ calls, call.IgnoresLabel) : applyAll (session.relabel id) calls =
      ((applyAll session calls).1.relabel id, (applyAll session calls).2.map (SessionAnswer.relabel id)) := by
  induction calls generalizing session with
  | nil => rfl
  | cons call calls ih =>
    rw [applyAll, applyAll, apply_relabel id session (h call List.mem_cons_self)]
    dsimp only
    rw [ih _ fun call hcall => h call (List.mem_cons_of_mem _ hcall)]
    rfl

theorem attempt_restorable {session : Session} (h : Restorable session) {outcome : Except Exc Session}
    (hafter : ∀ after, outcome = .ok after → Restorable after) : Restorable (attempt session outcome).1 := by
  cases outcome with
  | error e => exact h
  | ok after => exact hafter after rfl

theorem apply_restorable {session : Session} (h : Restorable session) (call : SessionCall) :
    Restorable (apply session call).1 := by
  cases call with
  | generate client env input options =>
    have hgen := AIClient.generate_continues client env session input options
    obtain ⟨more, hmore, hroles⟩ := hgen.transcript
    show Restorable (client.generate env session input options).session
    rw [hgen.frame]
    refine ⟨h.idle, h.system, ?_⟩
    intro m hm
    dsimp only at hm
    rw [hmore] at hm
    rcases List.mem_append.mp hm with hm | hm
    · exact h.messages m hm
    · exact hroles m hm
  | append m =>
    apply attempt_restorable h
    intro after hafter
    obtain ⟨hm, _, rfl⟩ := Session.append_ok hafter
    refine ⟨h.idle, h.system, ?_⟩
    intro m' hm'
    rcases List.mem_append.mp hm' with hm' | hm'
    · exact h.messages m' hm'
    · rwa [List.mem_singleton.mp hm']
  | setSystem text =>
    apply attempt_restorable h
    intro after hafter
    have htext : text ≠ "" := by
      rintro rfl
      cases hafter
    obtain ⟨_, _, rfl⟩ := Session.setSystem_ok hafter
    exact ⟨h.idle, by simpa using htext, h.messages⟩
  | clearMessages =>
    apply attempt_restorable h
    intro after hafter
    obtain ⟨_, rfl⟩ := Session.clearMessages_ok hafter
    exact ⟨h.idle, h.system, fun m hm => absurd hm List.not_mem_nil⟩

theorem applyAll_restorable (calls : List SessionCall) {session : Session} (h : Restorable session) :
    Restorable (applyAll session calls).1 := by
  induction calls generalizing session with
  | nil => exact h
  | cons call calls ih => exact ih (apply_restorable h call)

end SessionCall

open SessionCall in
/-- **A restored session goes on as the one it was saved from.** Whatever was called on that one, the constructor accepts
what it left; and whatever is called on the restored one then returns, sends, traces and appends what the same calls on
the other do, under the new id. -/
theorem restored_continues {generated : String} {options : SessionOptions} {session : Session}
    (hmake : Session.make generated options = .ok session) (before after : List SessionCall)
    (hafter : ∀ call ∈ after, call.IgnoresLabel) (generated' id : String) :
    let saved := (applyAll session before).1
    ∃ restored, Session.make generated' { id, systemMessage := saved.systemMessage, messages := saved.messages } =
        .ok restored ∧ restored.id = (if id = "" then generated' else id) ∧
      applyAll restored after =
        ((applyAll saved after).1.relabel restored.id, (applyAll saved after).2.map (SessionAnswer.relabel restored.id)) := by
  intro saved
  have hsaved : Restorable saved := applyAll_restorable before (.of_make hmake)
  exact ⟨_, hsaved.make generated' id, rfl, applyAll_relabel _ saved hafter⟩

def lostCall : SessionCall :=
  .generate AnthropicClient.sampleClient.base
    (AnthropicClient.sampleClient.env (fixedText AnthropicClient.toolUseBody) AnthropicClient.sampleCall) (.userText "hello") {}

theorem restored_continues_elsewhere :
    let saved := (SessionCall.applyAll { id := "session-1" } [lostCall]).1
    ∃ restored, Session.make "session-2" { id := "", systemMessage := saved.systemMessage, messages := saved.messages } =
        .ok restored ∧ restored.id = "session-2" ∧
      SessionCall.applyAll restored [.append (.userText "again"), lostCall] =
        ((SessionCall.applyAll saved [.append (.userText "again"), lostCall]).1.relabel restored.id,
          (SessionCall.applyAll saved [.append (.userText "again"), lostCall]).2.map (SessionAnswer.relabel restored.id)) := by
  have hmake : Session.make "session-1" {} = .ok { id := "session-1" } := rfl
  have hafter : ∀ call ∈ [.append (.userText "again"), lostCall], SessionCall.IgnoresLabel call := by
    rw [List.forall_mem_cons, List.forall_mem_singleton]
    exact ⟨trivial, AnthropicClient.sampleClient.ignoresLabel fun _ _ _ _ _ _ => rfl⟩
  exact restored_continues hmake [lostCall] _ hafter "session-2" ""

end NeuralPlus
