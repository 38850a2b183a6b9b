import NeuralPlus.Leased
import NeuralPlus.RunSound

/-!
# Generations that share a session

`AIClient::generate` as the steps it makes on the session, one read or one
append at a time, among the steps of other threads. Whatever the schedule, the
admitted calls leave what they leave one after the other, each generation whole.
-/

namespace NeuralPlus

open Fallible Leased
open Locked (Body)

variable {ρ : Type}

/-! ## The steps of a generation -/

/-- `append_from_client`: the role is checked before the lock. -/
def appendBody (m : Message) (failed : Exc → Body Session ρ) (next : Session → Body Session ρ) : Body Session ρ :=
  if m.role = .system then failed (.invalidArgument "client transcript must not contain system messages")
  else .act (fun session => { session with messages := session.messages ++ [m] }) next

def appendResultsBody (next : Session × Except Exc Unit → Body Session ρ) : Session → List ToolExecution → Body Session ρ
  | session, [] => next (session, .ok ())
  | session, execution :: executions =>
    match toolResult execution with
    | .error e => next (session, .error e)
    | .ok message =>
      appendBody message (fun e => next (session, .error e)) fun session => appendResultsBody next session executions

namespace AIClient

variable (client : AIClient) (env : RunEnv)

def runCallsBody (s : LoopState) (request : AIRequest) (events : List TraceEvent) (response : AIResponse)
    (usage : TokenUsage) (session : Session) : Body Session (Loop.Pass LoopState LoopExit) :=
  let calls := response.message.toolCalls
  let n := s.log.rounds.length
  let (result, marks) := client.executeTools (site env session.id n) calls (env.schedule n)
  match result with
  | .error e => .done (.leave ⟨.threw e, session, s.log.add ⟨request, some response, [], true⟩ events⟩)
  | .ok executions =>
    let events := events ++ toolEvents (site env session.id n 0) calls executions marks
    let toolCalls := s.cumulativeToolCalls + .ofNat executions.length
    let round : Round := ⟨request, some response, executions, true⟩
    appendResultsBody (fun
      | (session, .error e) => .done (.leave ⟨.threw e, session, s.log.add round events⟩)
      | (session, .ok ()) =>
        if executions.any (·.output.isError) && client.options.stopOnToolError then
          .done (.leave ⟨.returned { response with
              finishReason := .error, usage, modelRounds := s.round, toolCalls }, session,
            s.log.add round (events ++ [client.generationEnd env session.id .warning s.round toolCalls "error"])⟩)
        else
          .done (.again { session, round := s.round + 1, cumulativeUsage := usage, cumulativeToolCalls := toolCalls,
                          log := s.log.add round events })) session executions

def requestBody (options : GenerateOptions) (s : LoopState) : Body Session (Loop.Pass LoopState LoopExit) :=
  let request := client.makeRequest env options s.session
  let start := client.providerStart env s.round request
  match env.generateOnce s.log.rounds.length request with
  | .error e => .done (.leave ⟨.threw e, s.session, s.log.add ⟨request, none, [], false⟩ [start]⟩)
  | .ok response =>
    match client.acceptResponse s response with
    | .error e => .done (.leave ⟨.threw e, s.session, s.log.add ⟨request, some response, [], false⟩ [start]⟩)
    | .ok usage =>
      let events := [start, client.providerEnd env s.round request response]
      let calls := response.message.toolCalls
      if (!calls.isEmpty || response.requiresContinuation) && s.round = client.options.maxModelRounds then
        .done (.leave ⟨.threw (.maxRounds
            "maximum model rounds reached before provider continuation could be completed"),
          s.session, s.log.add ⟨request, some response, [], false⟩ events⟩)
      else
        appendBody response.message
          (fun e => .done (.leave ⟨.threw e, s.session, s.log.add ⟨request, some response, [], false⟩ events⟩))
          fun session =>
            if calls.isEmpty && !response.requiresContinuation then
              .done (.leave ⟨.returned { response with
                  usage, modelRounds := s.round, toolCalls := s.cumulativeToolCalls }, session,
                s.log.add ⟨request, some response, [], true⟩ (events ++ [client.generationEnd env session.id .info
                  s.round s.cumulativeToolCalls response.finishReason.toString])⟩)
            else if calls.isEmpty then
              .done (.again { session, round := s.round + 1, cumulativeUsage := usage,
                              cumulativeToolCalls := s.cumulativeToolCalls,
                              log := s.log.add ⟨request, some response, [], true⟩ events })
            else client.runCallsBody env s request events response usage session

/-- One pass: `system()` and `messages()` are two reads, and what they find is what the thread goes on with. -/
def passBody (options : GenerateOptions) (s : LoopState) : Body Session (Loop.Pass LoopState LoopExit) :=
  if s.round ≤ client.options.maxModelRounds then
    .act id fun first => .act id fun session =>
      client.requestBody env options { s with session := { session with systemMessage := first.systemMessage } }
  else .done (.leave ⟨.fellThrough, s.session, s.log⟩)

def roundLoopBody (options : GenerateOptions) : Nat → LoopState → Body Session (Option LoopExit)
  | 0, _ => .done none
  | n + 1, s =>
    (client.passBody env options s).bind fun
      | .again t => roundLoopBody options n t
      | .leave exit => .done (some exit)

def generateBody (input : Message) (options : GenerateOptions) : Body Session (Except Exc AIResponse × RunLog) :=
  .act id fun leased =>
    let log : RunLog := { events := [client.generationStart env leased.id input] }
    appendBody input (fun e => .done (.error e, log)) fun opened =>
      (client.roundLoopBody env options (client.options.maxModelRounds.toNat + 1) { session := opened, log }).bind fun
        | some exit => .done ((client.conclude env exit).outcome, (client.conclude env exit).log)
        | none => .done (.error .unknown, log)

end AIClient

/-! ## Undisturbed, the steps are the generation -/

theorem run_appendBody (m : Message) (failed : Exc → Body Session ρ) (next : Session → Body Session ρ) (session : Session) :
    (appendBody m failed next).run session =
      match session.appendFromClient m with
      | .error e => (failed e).run session
      | .ok session => (next session).run session := by
  unfold appendBody
  by_cases hm : m.role = .system
  · rw [if_pos hm]
    simp [Session.appendFromClient, throwIf, hm]
  · rw [if_neg hm, Session.appendFromClient_of_ne hm]
    rfl

theorem run_appendResultsBody (next : Session × Except Exc Unit → Body Session ρ) (session : Session)
    (executions : List ToolExecution) :
    (appendResultsBody next session executions).run session =
      (next (appendResults session executions)).run (appendResults session executions).1 := by
  induction executions generalizing session with
  | nil => rfl
  | cons execution executions ih =>
    unfold appendResultsBody appendResults
    cases toolResult execution with
    | error e => rfl
    | ok message =>
      dsimp only
      rw [run_appendBody]
      cases session.appendFromClient message with
      | error e => rfl
      | ok session => exact ih session

namespace AIClient

variable {client : AIClient} {env : RunEnv} {options : GenerateOptions}

def sessionAfter : Loop.Pass LoopState LoopExit → Session
  | .again s => s.session
  | .leave exit => exit.session

theorem run_runCallsBody (s : LoopState) (request : AIRequest) (events : List TraceEvent) (response : AIResponse)
    (usage : TokenUsage) (session : Session) :
    (client.runCallsBody env s request events response usage session).run session =
      (sessionAfter (client.runCalls env s request events response usage session),
        client.runCalls env s request events response usage session) := by
  unfold runCallsBody runCalls
  dsimp only
  cases client.executeTools (site env session.id s.log.rounds.length) response.message.toolCalls
      (env.schedule s.log.rounds.length) with
  | mk result marks =>
    cases result with
    | error e => rfl
    | ok executions =>
      dsimp only
      rw [run_appendResultsBody]
      cases appendResults session executions with
      | mk appended outcome =>
        cases outcome with
        | error e => rfl
        | ok _ =>
          dsimp only
          split <;> rfl

theorem run_passBody (s : LoopState) :
    (client.passBody env options s).run s.session =
      (sessionAfter (client.loopBody env options s), client.loopBody env options s) := by
  unfold passBody loopBody
  by_cases hround : s.round ≤ client.options.maxModelRounds
  · rw [if_pos hround, if_pos hround]
    show (client.requestBody env options s).run s.session = _
    unfold requestBody
    dsimp only
    cases env.generateOnce s.log.rounds.length (client.makeRequest env options s.session) with
    | error e => rfl
    | ok response =>
      dsimp only
      cases client.acceptResponse s response with
      | error e => rfl
      | ok usage =>
        dsimp only
        split
        · rfl
        · rw [run_appendBody]
          cases s.session.appendFromClient response.message with
          | error e => rfl
          | ok session =>
            dsimp only
            split
            · rfl
            · split
              · rfl
              · exact run_runCallsBody ..
  · rw [if_neg hround, if_neg hround]
    rfl

theorem run_roundLoopBody : ∀ (n : Nat) (s : LoopState) {exit : LoopExit},
    Loop.run (client.loopBody env options) n s = some exit →
      (client.roundLoopBody env options n s).run s.session = (exit.session, some exit)
  | 0, _, _, h => by cases h
  | n + 1, s, exit, h => by
    unfold roundLoopBody
    rw [Body.run_bind, run_passBody]
    unfold Loop.run at h
    cases hpass : client.loopBody env options s with
    | again t =>
      rw [hpass] at h
      exact run_roundLoopBody n t h
    | leave exit' =>
      rw [hpass] at h
      obtain rfl := Option.some.inj h
      rfl

/-- **Undisturbed, the steps between the lease and its release are the generation.** -/
theorem run_generateBody {session leased : Session} {input : Message}
    (hbegin : client.begin session input options = .ok leased) :
    let after := (client.generateBody env input options).run leased
    client.generate env session input options =
      { session := after.1.release, outcome := after.2.1, log := after.2.2 } := by
  obtain ⟨_, hrole, _, _⟩ := begin_ok hbegin
  unfold generate generateBody
  rw [hbegin]
  dsimp only
  rw [Body.run, id_eq, run_appendBody]
  rw [Session.appendFromClient_of_ne (by rw [hrole]; decide)]
  dsimp only
  rw [Body.run_bind]
  have hlog : ({ events := [client.generationStart env leased.id input] } : RunLog).rounds = [] := rfl
  obtain ⟨_, exit, hexit, _⟩ := roundLoop_spec client env options { leased with messages := leased.messages ++ [input] } hlog
  rw [hexit, run_roundLoopBody _ _ hexit]
  have hsession : (client.conclude env exit).session = exit.session.release := by
    unfold conclude
    cases exit.outcome <;> rfl
  show client.conclude env exit = ⟨exit.session.release, _, _⟩
  rw [← hsession]
  rfl

end AIClient

/-! ## What the steps keep -/

section
variable {P : Session → Prop}

theorem keeps_appendBody {m : Message} {failed : Exc → Body Session ρ} {next : Session → Body Session ρ}
    (hP : ∀ session m, P session → P { session with messages := session.messages ++ [m] })
    (hfailed : ∀ e, Keeps P (failed e)) (hnext : ∀ session, Keeps P (next session)) :
    Keeps P (appendBody m failed next) := by
  unfold appendBody
  split
  · exact hfailed _
  · intro session hsession
    exact ⟨hP session m hsession, hnext _⟩

theorem keeps_appendResultsBody {next : Session × Except Exc Unit → Body Session ρ}
    (hP : ∀ session m, P session → P { session with messages := session.messages ++ [m] })
    (hnext : ∀ after, Keeps P (next after)) (session : Session) (executions : List ToolExecution) :
    Keeps P (appendResultsBody next session executions) := by
  induction executions generalizing session with
  | nil => exact hnext _
  | cons execution executions ih =>
    unfold appendResultsBody
    split
    · exact hnext _
    · exact keeps_appendBody hP (fun e => hnext _) fun session => ih session

namespace AIClient

variable {client : AIClient} {env : RunEnv} {options : GenerateOptions}

theorem keeps_runCallsBody (hP : ∀ session m, P session → P { session with messages := session.messages ++ [m] })
    (s : LoopState) (request : AIRequest) (events : List TraceEvent) (response : AIResponse) (usage : TokenUsage)
    (session : Session) : Keeps P (client.runCallsBody env s request events response usage session) := by
  unfold runCallsBody
  dsimp only
  split
  · trivial
  · apply keeps_appendResultsBody hP
    rintro ⟨session, _ | _⟩
    · trivial
    · dsimp only
      split <;> trivial

theorem keeps_passBody (hP : ∀ session m, P session → P { session with messages := session.messages ++ [m] })
    (s : LoopState) : Keeps P (client.passBody env options s) := by
  unfold passBody
  split
  · intro first hfirst
    refine ⟨hfirst, fun session hsession => ⟨hsession, ?_⟩⟩
    unfold requestBody
    dsimp only
    split
    · trivial
    · split
      · trivial
      · split
        · trivial
        · apply keeps_appendBody hP
          · intro e
            trivial
          · intro session
            split
            · trivial
            · split
              · trivial
              · exact keeps_runCallsBody hP ..
  · trivial

theorem keeps_roundLoopBody (hP : ∀ session m, P session → P { session with messages := session.messages ++ [m] }) :
    ∀ (n : Nat) (s : LoopState), Keeps P (client.roundLoopBody env options n s)
  | 0, _ => trivial
  | n + 1, s => by
    apply (keeps_passBody hP s).bind
    rintro (t | exit)
    · exact keeps_roundLoopBody hP n t
    · trivial

theorem keeps_generateBody (hP : ∀ session m, P session → P { session with messages := session.messages ++ [m] })
    (input : Message) : Keeps P (client.generateBody env input options) := by
  intro leased hleased
  refine ⟨hleased, ?_⟩
  apply keeps_appendBody hP
  · intro e
    trivial
  · intro opened
    apply (keeps_roundLoopBody hP _ _).bind
    rintro (_ | exit) <;> trivial

end AIClient

end

/-! ## Threads that share a session -/

inductive SessionCall where
  | generate (client : AIClient) (env : RunEnv) (input : Message) (options : GenerateOptions)
  | append (m : Message)
  | setSystem (text : String)
  | clearMessages

inductive SessionAnswer where
  | generated (outcome : Except Exc AIResponse) (log : RunLog)
  | changed (outcome : Except Exc Unit)

namespace SessionCall

def attempt (session : Session) (outcome : Except Exc Session) : Session × SessionAnswer :=
  match outcome with
  | .ok after => (after, .changed (.ok ()))
  | .error e => (session, .changed (.error e))

def apply (session : Session) : SessionCall → Session × SessionAnswer
  | generate client env input options =>
    let result := client.generate env session input options
    (result.session, .generated result.outcome result.log)
  | append m => attempt session (session.append m)
  | setSystem text => attempt session (session.setSystem text)
  | clearMessages => attempt session session.clearMessages

def checks (client : AIClient) (input : Message) (options : GenerateOptions) : Except Exc Unit := do
  client.validateInput input
  AIClient.validateOptions options

/-- The error of a call that finds the session in use: its own checks come first. -/
def refusal : SessionCall → SessionAnswer
  | generate client _ input options =>
    match checks client input options with
    | .error e => .generated (.error e) {}
    | .ok () => .generated (.error Session.inUse) {}
  | append m =>
    .changed (.error (if m.role = .system then
      .invalidArgument "append does not accept system messages; use set_system" else Session.inUse))
  | setSystem text =>
    .changed (.error (if text = "" then .invalidArgument "system message must not be empty" else Session.inUse))
  | clearMessages => .changed (.error Session.inUse)

def operation : SessionCall → Operation Session SessionAnswer
  | generate client env input options =>
    match checks client input options with
    | .error e => .short fun session => (session, .generated (.error e) {})
    | .ok () => .long ((client.generateBody env input options).map fun result => .generated result.1 result.2)
  | append m => .short fun session => apply session (append m)
  | setSystem text => .short fun session => apply session (setSystem text)
  | clearMessages => .short fun session => apply session clearMessages

def applyAll : Session → List SessionCall → Session × List SessionAnswer
  | session, [] => (session, [])
  | session, call :: calls =>
    let after := call.apply session
    ((applyAll after.1 calls).1, after.2 :: (applyAll after.1 calls).2)

theorem begin_eq (client : AIClient) (session : Session) (input : Message) (options : GenerateOptions) :
    client.begin session input options = (checks client input options >>= fun _ => session.acquire) := by
  unfold AIClient.begin checks
  cases client.validateInput input <;> rfl

theorem operation_failed {client : AIClient} {input : Message} {options : GenerateOptions} {e : Exc}
    (h : checks client input options = .error e) (env : RunEnv) :
    operation (generate client env input options) = .short fun session => (session, .generated (.error e) {}) := by
  unfold operation
  dsimp only
  rw [h]

theorem operation_passed {client : AIClient} {input : Message} {options : GenerateOptions}
    (h : checks client input options = .ok ()) (env : RunEnv) :
    operation (generate client env input options) =
      .long ((client.generateBody env input options).map fun result => .generated result.1 result.2) := by
  unfold operation
  dsimp only
  rw [h]

theorem refusal_failed {client : AIClient} {input : Message} {options : GenerateOptions} {e : Exc}
    (h : checks client input options = .error e) (env : RunEnv) :
    refusal (generate client env input options) = .generated (.error e) {} := by
  unfold refusal
  dsimp only
  rw [h]

theorem apply_append_busy {session : Session} (h : session.active = true) (m : Message) :
    apply session (append m) = (session, refusal (append m)) := by
  unfold apply Session.append refusal attempt
  by_cases hm : m.role = .system <;> simp [throwIf, Session.requireIdle, h, hm]

theorem apply_setSystem_busy {session : Session} (h : session.active = true) (text : String) :
    apply session (setSystem text) = (session, refusal (setSystem text)) := by
  unfold apply Session.setSystem refusal attempt
  by_cases htext : text = "" <;> simp [throwIf, Session.requireIdle, h, htext]

theorem apply_clearMessages_busy {session : Session} (h : session.active = true) :
    apply session clearMessages = (session, refusal clearMessages) := by
  unfold apply Session.clearMessages refusal attempt
  simp [throwIf, Session.requireIdle, h]

theorem operation_taken {call : SessionCall} {f : Session → Session × SessionAnswer} {session : Session}
    (h : call.operation = .short f) (htaken : session.active = true) : f session = (session, call.refusal) := by
  cases call with
  | generate client env input options =>
    cases hchecks : checks client input options with
    | error e =>
      rw [operation_failed hchecks] at h
      cases h
      rw [refusal_failed hchecks]
    | ok _ =>
      rw [operation_passed hchecks] at h
      cases h
  | append m =>
    cases h
    exact apply_append_busy htaken m
  | setSystem text =>
    cases h
    exact apply_setSystem_busy htaken text
  | clearMessages =>
    cases h
    exact apply_clearMessages_busy htaken

theorem attempt_idle {session : Session} {outcome : Except Exc Session} (hidle : session.active = false)
    (h : ∀ after, outcome = .ok after → after.active = session.active) : (attempt session outcome).1.active = false := by
  cases outcome with
  | error e => exact hidle
  | ok after => exact (h after rfl).trans hidle

theorem operation_idle {call : SessionCall} {f : Session → Session × SessionAnswer} {session : Session}
    (h : call.operation = .short f) (hidle : session.active = false) : (f session).1.active = false := by
  cases call with
  | generate client env input options =>
    cases hchecks : checks client input options with
    | error e =>
      rw [operation_failed hchecks] at h
      cases h
      exact hidle
    | ok _ =>
      rw [operation_passed hchecks] at h
      cases h
  | append m =>
    cases h
    exact attempt_idle hidle fun after hafter => by rw [(Session.append_ok hafter).2.2]
  | setSystem text =>
    cases h
    exact attempt_idle hidle fun after hafter => by rw [(Session.setSystem_ok hafter).2.2]
  | clearMessages =>
    cases h
    exact attempt_idle hidle fun after hafter => by rw [(Session.clearMessages_ok hafter).2]

theorem operation_keeps {call : SessionCall} {body : Body Session SessionAnswer} (h : call.operation = .long body) :
    Keeps (fun session : Session => session.active = true) body := by
  cases call with
  | generate client env input options =>
    cases hchecks : checks client input options with
    | error e =>
      rw [operation_failed hchecks] at h
      cases h
    | ok _ =>
      rw [operation_passed hchecks] at h
      cases h
      exact (AIClient.keeps_generateBody (fun _ _ hactive => hactive) input).map _
  | append m => cases h
  | setSystem text => cases h
  | clearMessages => cases h

end SessionCall

def sharedSession : System Session SessionAnswer SessionCall where
  taken := Session.active
  take session := { session with active := true }
  release := Session.release
  operation := SessionCall.operation
  refusal := SessionCall.refusal
  taken_take _ := rfl
  taken_release _ := rfl
  short_taken _ _ _ := SessionCall.operation_taken
  short_free _ _ _ := SessionCall.operation_idle
  long_keeps _ _ := SessionCall.operation_keeps

namespace SessionCall

/-- **On an idle session a call's steps are the call.** -/
theorem whole_eq_apply {session : Session} (hidle : session.active = false) (call : SessionCall) :
    sharedSession.whole call session = call.apply session := by
  cases call with
  | generate client env input options =>
    have hacquire : session.acquire = .ok { session with active := true } := by
      simp [Session.acquire, throwIf, hidle]
    have hbegin := begin_eq client session input options
    cases hchecks : checks client input options with
    | error e =>
      rw [hchecks] at hbegin
      have hshort : sharedSession.operation (generate client env input options) = _ := operation_failed hchecks env
      rw [System.whole_short hshort]
      unfold apply AIClient.generate
      dsimp only
      rw [hbegin]
      rfl
    | ok _ =>
      rw [hchecks, ok_bind, hacquire] at hbegin
      have hlong : sharedSession.operation (generate client env input options) = _ := operation_passed hchecks env
      rw [System.whole_long hlong hidle, Body.run_map]
      unfold apply
      dsimp only
      rw [AIClient.run_generateBody hbegin]
      rfl
  | append m => rfl
  | setSystem text => rfl
  | clearMessages => rfl

theorem serial_eq_applyAll : ∀ (calls : List SessionCall) {session : Session}, session.active = false →
    sharedSession.serial session calls = applyAll session calls
  | [], _, _ => rfl
  | call :: calls, session, hidle => by
    have hafter : (call.apply session).1.active = false := by
      rw [← whole_eq_apply hidle call]
      exact System.whole_free (show sharedSession.taken session = false from hidle)
    unfold System.serial applyAll
    rw [whole_eq_apply hidle call]
    dsimp only
    rw [serial_eq_applyAll calls hafter]

end SessionCall

/-- **Generations are serializable.** However the steps of any threads' calls interleave, the admitted calls return what
they return one at a time, and leave the session as they leave it one at a time whenever it is idle; a call that found
the session in use returned an error and changed nothing; and every thread made its calls in order. -/
theorem generations_serializable {T : Type} [DecidableEq T] {programs : T → List SessionCall} {session : Session}
    (hidle : session.active = false) {s : State Session SessionAnswer SessionCall T} {schedule : List T}
    (hrun : Lts.Run (Step sharedSession) { shared := session, todo := programs } schedule s) :
    let calls := (admitted s).map Served.call
    (admitted s).map Served.result = (SessionCall.applyAll session calls).2 ∧
    (s.shared.active = false → s.shared = (SessionCall.applyAll session calls).1) ∧
    (∀ entry ∈ s.served, entry.admitted = false → entry.result = entry.call.refusal) ∧
    ∀ t, callsOf s t <+: programs t := by
  have h := serializable hidle hrun
  have hserial := SessionCall.serial_eq_applyAll ((admitted s).map Served.call) hidle
  refine ⟨?_, ?_, h.refused, fun t => ⟨s.todo t, h.order t⟩⟩
  · rw [← hserial]
    exact h.results
  · intro hfree
    rw [← hserial]
    exact h.settled_eq hfree

/-! ## An append that comes too early -/

def greetingEnv : RunEnv :=
  { runId := "run-1"
    generateOnce := fun _ _ => .ok { message := .assistantText "hello" }
    invoke := fun _ _ _ _ _ => .error .unknown
    schedule := fun _ => [] }

def greeting : SessionCall := .generate .plainClient greetingEnv (.userText "hi") {}

def more : SessionCall := .append (.userText "more")

def sharingPrograms : Bool → List SessionCall := fun t => if t then [greeting] else [more, more]

def greetingBody : Body Session SessionAnswer :=
  (AIClient.plainClient.generateBody greetingEnv (.userText "hi") {}).map fun result => .generated result.1 result.2

def refusedState : State Session SessionAnswer SessionCall Bool where
  shared := { id := "s", active := true }
  pc := Function.update (fun _ => none) true (some (greeting, greetingBody))
  todo := Function.update (Function.update sharingPrograms true []) false [more]
  served := [⟨false, more, more.refusal, false⟩]

theorem generations_serializable_sharing : ∃ schedule s,
    Lts.Run (Step sharedSession) { shared := { id := "s" }, todo := sharingPrograms } schedule s ∧
    s.shared = (SessionCall.applyAll { id := "s" } [greeting, more]).1 := by
  have hgreeting : SessionCall.checks .plainClient (.userText "hi") {} = .ok () := by decide +kernel
  have hbegun : Lts.Run (Step sharedSession) { shared := { id := "s" }, todo := sharingPrograms } [true, false] refusedState :=
    .cons (.enter rfl rfl (SessionCall.operation_passed hgreeting greetingEnv) rfl) (.cons (.short rfl rfl rfl) (.nil _))
  have hpc : refusedState.pc true = some (greeting, greetingBody) := rfl
  obtain ⟨schedule, hinside⟩ := exists_run_inside sharedSession hpc
  have hended := (hbegun.append hinside).append (.cons (.short (t := false) rfl rfl rfl) (.nil _))
  exact ⟨_, _, hended, (generations_serializable rfl hended).2.1 rfl⟩

end NeuralPlus
