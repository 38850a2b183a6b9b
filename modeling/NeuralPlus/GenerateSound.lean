import NeuralPlus.ExecSound
import NeuralPlus.Generate
import NeuralPlus.History

/-!
# What a generation does

Every pass through the loop of `generate` ends in one of eight ways, and the
rounds that were completed before it form a history: each request is a
snapshot of the transcript so far, each response was accepted, and each of its
calls was executed and answered.
-/

namespace NeuralPlus

open Fallible

/-! ## What a round appends -/

structure Records (call : ToolCall) (output : ToolOutput) (m : Message) : Prop where
  role : m.role = .tool
  id : m.toolCallId = call.id
  name : m.toolName = call.name
  metadata : m.providerMetadata = call.providerMetadata
  contents : m.contents = output.contents
  isError : m.toolError = output.isError

def answers (executions : List ToolExecution) : List Message :=
  executions.filterMap fun x => (toolResult x).toOption

def Round.messages (r : Round) : List Message :=
  match r.response with
  | some response => if r.appended then response.message :: answers r.executions else []
  | none => []

theorem toolResult_ok {x : ToolExecution} (hi : x.call.id ≠ "") (hn : x.call.name ≠ "") :
    ∃ m, toolResult x = .ok m ∧ Records x.call x.output m := by
  refine ⟨_, by simp [toolResult, Message.tool, hi, hn]; rfl, ?_⟩
  exact ⟨rfl, rfl, rfl, rfl, rfl, rfl⟩

def Named (calls : List ToolCall) : Prop := ∀ c ∈ calls, c.id ≠ "" ∧ c.name ≠ ""

theorem answers_cons {x : ToolExecution} {m : Message} (h : toolResult x = .ok m) (xs : List ToolExecution) :
    answers (x :: xs) = m :: answers xs := by
  unfold answers
  rw [List.filterMap_cons, h]
  rfl

theorem answers_records : ∀ {xs : List ToolExecution}, Named (xs.map ToolExecution.call) →
    List.Forall₂ (fun x m => toolResult x = .ok m ∧ Records x.call x.output m) xs (answers xs)
  | [], _ => .nil
  | x :: xs, h => by
    obtain ⟨⟨hi, hn⟩, hxs⟩ := List.forall_mem_cons.mp h
    obtain ⟨m, hm, hr⟩ := toolResult_ok hi hn
    rw [answers_cons hm]
    exact .cons ⟨hm, hr⟩ (answers_records hxs)

theorem appendResults_eq : ∀ (session : Session) {xs : List ToolExecution}, Named (xs.map ToolExecution.call) →
    appendResults session xs = ({ session with messages := session.messages ++ answers xs }, .ok ())
  | session, [], _ => by simp [appendResults, answers]
  | session, x :: xs, h => by
    obtain ⟨⟨hi, hn⟩, hxs⟩ := List.forall_mem_cons.mp h
    obtain ⟨m, hm, hr⟩ := toolResult_ok hi hn
    rw [appendResults, hm, answers_cons hm]
    dsimp only
    rw [Session.appendFromClient_of_ne (by rw [hr.role]; simp)]
    dsimp only
    rw [appendResults_eq _ hxs]
    simp

/-! ## The checks of a response -/

namespace AIClient

variable (client : AIClient)

structure Accepted (s : LoopState) (response : AIResponse) (usage : TokenUsage) : Prop where
  role : response.message.role = .assistant
  within : response.message.toolCalls.length ≤ (client.remainingCalls s.cumulativeToolCalls).toNat
  named : Named response.message.toolCalls
  distinct : (response.message.toolCalls.map ToolCall.id).Nodup
  usage : addUsage s.cumulativeUsage response.usage (s.round = 1) = .ok usage

theorem checkCallIds_ok_iff {rid : String} : ∀ {seen : List String} {calls : List ToolCall},
    client.checkCallIds rid seen calls = .ok () ↔
      Named calls ∧ (calls.map ToolCall.id).Nodup ∧ ∀ c ∈ calls, c.id ∉ seen
  | seen, [] => by simp [checkCallIds, Named]
  | seen, call :: calls => by
    rw [checkCallIds]
    simp only [Named, List.forall_mem_cons, List.map_cons, List.nodup_cons]
    split
    · rename_i h; simp only [reduceCtorEq, false_iff]; rcases h with h | h <;> simp [h]
    · rename_i h
      rw [not_or] at h
      split
      · rename_i hseen; simp [hseen]
      · rename_i hseen
        rw [checkCallIds_ok_iff]
        simp only [Named, List.mem_cons, not_or, List.mem_map, not_exists, not_and]
        constructor
        · rintro ⟨h₁, h₂, h₃⟩
          exact ⟨⟨h, h₁⟩, ⟨fun c hc => (h₃ c hc).1, h₂⟩, hseen, fun c hc => (h₃ c hc).2⟩
        · rintro ⟨⟨_, h₁⟩, ⟨h₂, h₃⟩, _, h₄⟩
          exact ⟨h₁, h₃, fun c hc => ⟨h₂ c hc, h₄ c hc⟩⟩

theorem acceptResponse_ok_iff {s : LoopState} {response : AIResponse} {usage : TokenUsage} :
    client.acceptResponse s response = .ok usage ↔ client.Accepted s response usage := by
  simp only [acceptResponse, bind_eq_ok, throwIf_eq_ok]
  constructor
  · rintro ⟨_, hr, _, hw, u, hc, hu⟩
    obtain ⟨hn, hd, _⟩ := (checkCallIds_ok_iff client).mp hc
    exact ⟨by simpa using hr, by omega, hn, hd, hu⟩
  · rintro ⟨hr, hw, hn, hd, hu⟩
    exact ⟨(), by simp [hr], (), by omega, (), (checkCallIds_ok_iff client).mpr ⟨hn, hd, by simp⟩, hu⟩

end AIClient

def NeedsAnother (response : AIResponse) : Prop :=
  response.message.toolCalls ≠ [] ∨ response.requiresContinuation = true

/-! ## How a pass ends -/

namespace AIClient

variable (client : AIClient) (env : RunEnv) (options : GenerateOptions)

def requestAt (s : LoopState) : AIRequest := client.makeRequest env options s.session

def afterRound (session : Session) (r : Round) : Session := { session with messages := session.messages ++ r.messages }

/-- A response that passed every check of its round and was appended. -/
structure Completes (s : LoopState) (response : AIResponse) (usage : TokenUsage) (executions : List ToolExecution) :
    Prop where
  inBounds : s.round ≤ client.options.maxModelRounds
  sent : env.generateOnce s.log.rounds.length (client.requestAt env options s) = .ok response
  accepted : client.Accepted s response usage
  roundsLeft : NeedsAnother response → s.round ≠ client.options.maxModelRounds
  executed : response.message.toolCalls.mapIdx
    (fun i call => client.executeTool (site env s.session.id s.log.rounds.length i) call) = executions.map .ok

def completedRound (s : LoopState) (response : AIResponse) (executions : List ToolExecution) : Round :=
  ⟨client.requestAt env options s, some response, executions, true⟩

inductive Fails (s : LoopState) : Option AIResponse → Exc → Prop
  | providerThrew {e : Exc} : env.generateOnce s.log.rounds.length (client.requestAt env options s) = .error e →
      Fails s none e
  | rejected {response : AIResponse} {e : Exc} :
      env.generateOnce s.log.rounds.length (client.requestAt env options s) = .ok response →
      client.acceptResponse s response = .error e → Fails s (some response) e
  | lastRound {response : AIResponse} {usage : TokenUsage} :
      env.generateOnce s.log.rounds.length (client.requestAt env options s) = .ok response →
      client.Accepted s response usage → NeedsAnother response → s.round = client.options.maxModelRounds →
      Fails s (some response)
        (.maxRounds "maximum model rounds reached before provider continuation could be completed")

/-- The ways a pass through the loop can end. -/
inductive PassEnds (s : LoopState) : Loop.Pass LoopState LoopExit → Prop
  | fellThrough : ¬ s.round ≤ client.options.maxModelRounds → PassEnds s (.leave ⟨.fellThrough, s.session, s.log⟩)
  | failed {response : Option AIResponse} {e : Exc} (events : List TraceEvent) :
      s.round ≤ client.options.maxModelRounds → client.Fails env options s response e →
      PassEnds s (.leave ⟨.threw e, s.session, s.log.add ⟨client.requestAt env options s, response, [], false⟩ events⟩)
  | answered {response : AIResponse} {usage : TokenUsage} (events : List TraceEvent) :
      client.Completes env options s response usage [] → ¬ NeedsAnother response →
      PassEnds s (.leave ⟨.returned { response with
          usage, modelRounds := s.round, toolCalls := s.cumulativeToolCalls },
        afterRound s.session (client.completedRound env options s response []),
        s.log.add (client.completedRound env options s response []) events⟩)
  | stopped {response : AIResponse} {usage : TokenUsage} {executions : List ToolExecution}
      (events : List TraceEvent) :
      client.Completes env options s response usage executions → response.message.toolCalls ≠ [] →
      (∃ x ∈ executions, x.output.isError = true) → client.options.stopOnToolError = true →
      PassEnds s (.leave ⟨.returned { response with
          finishReason := .error, usage, modelRounds := s.round
          toolCalls := s.cumulativeToolCalls + .ofNat executions.length },
        afterRound s.session (client.completedRound env options s response executions),
        s.log.add (client.completedRound env options s response executions) events⟩)
  | again {response : AIResponse} {usage : TokenUsage} {executions : List ToolExecution} (events : List TraceEvent) :
      client.Completes env options s response usage executions → NeedsAnother response →
      PassEnds s (.again {
        session := afterRound s.session (client.completedRound env options s response executions)
        round := s.round + 1
        cumulativeUsage := usage
        cumulativeToolCalls := s.cumulativeToolCalls + .ofNat executions.length
        log := s.log.add (client.completedRound env options s response executions) events })

def passStart (s : LoopState) : TraceEvent := client.providerStart env s.round (client.requestAt env options s)

def passEvents (s : LoopState) (response : AIResponse) (executions : List ToolExecution) : List TraceEvent :=
  let site := site env s.session.id s.log.rounds.length
  [client.passStart env options s, client.providerEnd env s.round (client.requestAt env options s) response] ++
    toolEvents (site 0) response.message.toolCalls executions
      (client.executeTools site response.message.toolCalls (env.schedule s.log.rounds.length)).2

inductive PassTraces (s : LoopState) : Loop.Pass LoopState LoopExit → Prop
  | fellThrough : ¬ s.round ≤ client.options.maxModelRounds → PassTraces s (.leave ⟨.fellThrough, s.session, s.log⟩)
  | providerThrew {e : Exc} : s.round ≤ client.options.maxModelRounds →
      env.generateOnce s.log.rounds.length (client.requestAt env options s) = .error e →
      PassTraces s (.leave ⟨.threw e, s.session,
        s.log.add ⟨client.requestAt env options s, none, [], false⟩ [client.passStart env options s]⟩)
  | rejected {response : AIResponse} {e : Exc} : s.round ≤ client.options.maxModelRounds →
      env.generateOnce s.log.rounds.length (client.requestAt env options s) = .ok response →
      client.acceptResponse s response = .error e →
      PassTraces s (.leave ⟨.threw e, s.session,
        s.log.add ⟨client.requestAt env options s, some response, [], false⟩ [client.passStart env options s]⟩)
  | lastRound {response : AIResponse} {usage : TokenUsage} : s.round ≤ client.options.maxModelRounds →
      env.generateOnce s.log.rounds.length (client.requestAt env options s) = .ok response →
      client.Accepted s response usage → NeedsAnother response → s.round = client.options.maxModelRounds →
      PassTraces s (.leave
        ⟨.threw (.maxRounds "maximum model rounds reached before provider continuation could be completed"), s.session,
        s.log.add ⟨client.requestAt env options s, some response, [], false⟩
          [client.passStart env options s,
           client.providerEnd env s.round (client.requestAt env options s) response]⟩)
  | answered {response : AIResponse} {usage : TokenUsage} :
      client.Completes env options s response usage [] → ¬ NeedsAnother response →
      PassTraces s (.leave ⟨.returned { response with
          usage, modelRounds := s.round, toolCalls := s.cumulativeToolCalls },
        afterRound s.session (client.completedRound env options s response []),
        s.log.add (client.completedRound env options s response []) (client.passEvents env options s response [] ++
          [client.generationEnd env s.session.id .info s.round s.cumulativeToolCalls response.finishReason.toString])⟩)
  | stopped {response : AIResponse} {usage : TokenUsage} {executions : List ToolExecution} :
      client.Completes env options s response usage executions → response.message.toolCalls ≠ [] →
      (∃ x ∈ executions, x.output.isError = true) → client.options.stopOnToolError = true →
      PassTraces s (.leave ⟨.returned { response with
          finishReason := .error, usage, modelRounds := s.round
          toolCalls := s.cumulativeToolCalls + .ofNat executions.length },
        afterRound s.session (client.completedRound env options s response executions),
        s.log.add (client.completedRound env options s response executions)
          (client.passEvents env options s response executions ++
            [client.generationEnd env s.session.id .warning s.round
              (s.cumulativeToolCalls + .ofNat executions.length) "error"])⟩)
  | again {response : AIResponse} {usage : TokenUsage} {executions : List ToolExecution} :
      client.Completes env options s response usage executions → NeedsAnother response →
      PassTraces s (.again {
        session := afterRound s.session (client.completedRound env options s response executions)
        round := s.round + 1
        cumulativeUsage := usage
        cumulativeToolCalls := s.cumulativeToolCalls + .ofNat executions.length
        log := s.log.add (client.completedRound env options s response executions)
          (client.passEvents env options s response executions) })

variable {client env options}

theorem calls_of_executed {site : Nat → ToolSite} {calls : List ToolCall} {xs : List ToolExecution}
    (h : calls.mapIdx (fun i call => client.executeTool (site i) call) = xs.map .ok) :
    xs.map ToolExecution.call = calls := by
  induction calls generalizing site xs with
  | nil =>
    cases xs with
    | nil => rfl
    | cons x xs => simp at h
  | cons call calls ih =>
    cases xs with
    | nil => simp at h
    | cons x xs =>
      simp only [List.mapIdx_cons, List.map_cons, List.cons.injEq] at h
      rw [List.map_cons, (executeTool_contents (site 0) h.1).1, ih h.2]

theorem runCalls_traces {s : LoopState} {response : AIResponse} {usage : TokenUsage} {session : Session}
    (hin : s.round ≤ client.options.maxModelRounds)
    (hsent : env.generateOnce s.log.rounds.length (client.requestAt env options s) = .ok response)
    (hacc : client.Accepted s response usage) (hleft : s.round ≠ client.options.maxModelRounds)
    (hcalls : response.message.toolCalls ≠ [])
    (hsession : session = { s.session with messages := s.session.messages ++ [response.message] }) :
    client.PassTraces env options s (client.runCalls env s (client.requestAt env options s)
      [client.passStart env options s, client.providerEnd env s.round (client.requestAt env options s) response]
      response usage session) := by
  subst hsession
  obtain ⟨xs, hx, hexec⟩ := client.executeTools_eq (site env s.session.id s.log.rounds.length)
    response.message.toolCalls (env.schedule s.log.rounds.length)
  have hdone : client.Completes env options s response usage xs := ⟨hin, hsent, hacc, fun _ => hleft, hexec⟩
  have hnamed : Named (xs.map ToolExecution.call) := by
    rw [calls_of_executed hexec]; exact hacc.named
  have hafter : afterRound s.session (client.completedRound env options s response xs) =
      { s.session with messages := s.session.messages ++ [response.message] ++ answers xs } := by
    simp [afterRound, completedRound, Round.messages]
  unfold runCalls
  dsimp only
  rw [hx]
  dsimp only
  rw [appendResults_eq _ hnamed]
  dsimp only
  rw [← hafter]
  split
  · rename_i hstop
    simp only [Bool.and_eq_true, List.any_eq_true] at hstop
    exact .stopped hdone hcalls hstop.1 hstop.2
  · exact .again hdone (.inl hcalls)

theorem toolEvents_nil (site : ToolSite) (marks : List ExecMark) : toolEvents site [] [] marks = [] := by
  apply List.filterMap_eq_nil_iff.mpr
  intro mark _
  cases mark <;> rfl

/-- **Every pass ends in one of these ways.** -/
theorem loopBody_traces (client : AIClient) (env : RunEnv) (options : GenerateOptions) (s : LoopState) :
    client.PassTraces env options s (client.loopBody env options s) := by
  unfold loopBody
  split
  · rename_i hin
    dsimp only
    cases hsent : env.generateOnce s.log.rounds.length (client.makeRequest env options s.session) with
    | error e => exact .providerThrew hin hsent
    | ok response =>
      dsimp only
      cases hacc : client.acceptResponse s response with
      | error e => exact .rejected hin hsent hacc
      | ok usage =>
        have hacc' := (acceptResponse_ok_iff client).mp hacc
        have happend := Session.appendFromClient_of_ne (s := s.session) (m := response.message) (by rw [hacc'.role]; simp)
        have hneeds : (!response.message.toolCalls.isEmpty || response.requiresContinuation) = true ↔
            NeedsAnother response := by simp [NeedsAnother]
        dsimp only
        split
        · rename_i hlast
          simp only [Bool.and_eq_true, decide_eq_true_eq] at hlast
          exact .lastRound hin hsent hacc' (hneeds.mp hlast.1) hlast.2
        · rename_i hlast
          simp only [Bool.and_eq_true, decide_eq_true_eq, not_and, hneeds] at hlast
          rw [happend]
          dsimp only
          have hone (h : response.message.toolCalls = []) : client.Completes env options s response usage [] :=
            ⟨hin, hsent, hacc', hlast, by rw [h]; rfl⟩
          -- without calls the round appends the response alone and traces no tool
          have hafter : afterRound s.session (client.completedRound env options s response []) =
              { s.session with messages := s.session.messages ++ [response.message] } := by
            simp [afterRound, completedRound, Round.messages, answers]
          have hevents (h : response.message.toolCalls = []) : client.passEvents env options s response [] =
              [client.passStart env options s,
               client.providerEnd env s.round (client.requestAt env options s) response] := by
            simp [passEvents, h, toolEvents_nil]
          rw [← hafter]
          split
          · rename_i hdone
            simp only [Bool.and_eq_true, List.isEmpty_iff, Bool.not_eq_true'] at hdone
            have hans := PassTraces.answered (hone hdone.1) (by simp [NeedsAnother, hdone])
            rwa [hevents hdone.1] at hans
          · rename_i hmore
            split
            · rename_i hempty
              rw [List.isEmpty_iff] at hempty
              simp only [hempty, List.isEmpty_nil, Bool.true_and, Bool.not_eq_true', Bool.not_eq_false] at hmore
              have hagain := PassTraces.again (hone hempty) (.inr hmore)
              rwa [hevents hempty, show UInt64.ofNat ([] : List ToolExecution).length = 0 from rfl, UInt64.add_zero]
                at hagain
            · rename_i hcalls
              rw [List.isEmpty_iff] at hcalls
              exact runCalls_traces hin hsent hacc' (hlast (.inl hcalls)) hcalls hafter
  · exact .fellThrough ‹_›

theorem loopBody_spec (client : AIClient) (env : RunEnv) (options : GenerateOptions) (s : LoopState) :
    client.PassEnds env options s (client.loopBody env options s) := by
  have htraces := loopBody_traces client env options s
  generalize client.loopBody env options s = pass at htraces
  cases htraces with
  | fellThrough hout => exact .fellThrough hout
  | providerThrew hin hsent => exact .failed _ hin (.providerThrew hsent)
  | rejected hin hsent he => exact .failed _ hin (.rejected hsent he)
  | lastRound hin hsent hacc hneeds hlast => exact .failed _ hin (.lastRound hsent hacc hneeds hlast)
  | answered hc hn => exact .answered _ hc hn
  | stopped hc hcalls herr hstop => exact .stopped _ hc hcalls herr hstop
  | again hc hneeds => exact .again _ hc hneeds

/-! ## The invariant of the loop -/

def executedCalls : List Round → Nat
  | [] => 0
  | r :: rounds => r.executions.length + executedCalls rounds

def afterRounds (opened : Session) (rounds : List Round) : Session :=
  { opened with messages := opened.messages ++ rounds.flatMap Round.messages }

variable (client env options)

structure Completed (opened : Session) (before : List Round) (r : Round) (response : AIResponse) : Prop where
  answer : r.response = some response
  appended : r.appended = true
  request : r.request = client.makeRequest env options (afterRounds opened before)
  sent : env.generateOnce before.length r.request = .ok response
  role : response.message.role = .assistant
  named : Named response.message.toolCalls
  distinct : (response.message.toolCalls.map ToolCall.id).Nodup
  within : executedCalls before + response.message.toolCalls.length ≤ client.options.maxToolCallsPerGeneration.toNat
  executed : response.message.toolCalls.mapIdx
    (fun i call => client.executeTool (site env opened.id before.length i) call) = r.executions.map .ok

structure LoopInv (opened : Session) (s : LoopState) : Prop where
  session : s.session = afterRounds opened s.log.rounds
  round : s.round.toNat = s.log.rounds.length + 1
  round_le : s.round ≤ client.options.maxModelRounds
  toolCalls : s.cumulativeToolCalls.toNat = executedCalls s.log.rounds
  toolCalls_le : s.cumulativeToolCalls ≤ client.options.maxToolCallsPerGeneration
  history : History.Holds (fun before r => ∃ response, client.Completed env options opened before r response ∧
    NeedsAnother response) s.log.rounds

variable {client env options}

theorem Completed.calls {opened : Session} {before : List Round} {r : Round} {response : AIResponse}
    (h : client.Completed env options opened before r response) :
    r.executions.map ToolExecution.call = response.message.toolCalls := calls_of_executed h.executed

theorem Completed.length {opened : Session} {before : List Round} {r : Round} {response : AIResponse}
    (h : client.Completed env options opened before r response) :
    r.executions.length = response.message.toolCalls.length := by
  rw [← h.calls, List.length_map]

theorem Completed.messages {opened : Session} {before : List Round} {r : Round} {response : AIResponse}
    (h : client.Completed env options opened before r response) :
    r.messages = response.message :: answers r.executions := by
  simp only [Round.messages, h.answer, h.appended, if_true]

theorem remainingCalls_toNat {c : SizeT} (h : c ≤ client.options.maxToolCallsPerGeneration) :
    (client.remainingCalls c).toNat = client.options.maxToolCallsPerGeneration.toNat - c.toNat := by
  rw [remainingCalls, show min c _ = c from if_pos h, UInt64.toNat_sub_of_le _ _ h]

theorem executedCalls_concat (rounds : List Round) (r : Round) :
    executedCalls (rounds ++ [r]) = executedCalls rounds + r.executions.length := by
  induction rounds with
  | nil => simp [executedCalls]
  | cons r' rounds ih =>
    simp only [List.cons_append, executedCalls, ih]
    omega

theorem afterRounds_concat (opened : Session) (rounds : List Round) (r : Round) :
    afterRounds opened (rounds ++ [r]) = afterRound (afterRounds opened rounds) r := by
  simp [afterRounds, afterRound]

section
variable {opened : Session} {s : LoopState} {response : AIResponse} {usage : TokenUsage}
  {executions : List ToolExecution} (hs : client.LoopInv env options opened s)
  (hc : client.Completes env options s response usage executions)

include hs hc

theorem LoopInv.completed : client.Completed env options opened s.log.rounds
    (client.completedRound env options s response executions) response where
  answer := rfl
  appended := rfl
  request := by rw [← hs.session]; rfl
  sent := hc.sent
  role := hc.accepted.role
  named := hc.accepted.named
  distinct := hc.accepted.distinct
  within := by
    have hw := hc.accepted.within
    rw [remainingCalls_toNat hs.toolCalls_le, hs.toolCalls] at hw
    have := UInt64.le_iff_toNat_le.mp hs.toolCalls_le
    rw [hs.toolCalls] at this
    omega
  executed := by
    have := hc.executed
    rwa [show s.session.id = opened.id by rw [hs.session]; rfl] at this

theorem LoopInv.toolCalls_add :
    (s.cumulativeToolCalls + .ofNat executions.length).toNat = executedCalls s.log.rounds + executions.length ∧
    s.cumulativeToolCalls + .ofNat executions.length ≤ client.options.maxToolCallsPerGeneration := by
  have hw := (hs.completed hc).within
  have hl : executions.length = response.message.toolCalls.length := (hs.completed hc).length
  have hlt := client.options.maxToolCallsPerGeneration.toNat_lt
  have hlen : executions.length < 2 ^ 64 := by omega
  have hadd : (s.cumulativeToolCalls + .ofNat executions.length).toNat =
      executedCalls s.log.rounds + executions.length := by
    rw [UInt64.toNat_add, UInt64.toNat_ofNat_of_lt' (by simpa using hlen), hs.toolCalls]
    omega
  exact ⟨hadd, UInt64.le_iff_toNat_le.mpr (by omega)⟩

end

theorem round_succ {s : LoopState} (hle : s.round ≤ client.options.maxModelRounds)
    (hne : s.round ≠ client.options.maxModelRounds) :
    (s.round + 1).toNat = s.round.toNat + 1 ∧ s.round + 1 ≤ client.options.maxModelRounds := by
  have hlt : s.round.toNat < client.options.maxModelRounds.toNat := by
    have := UInt64.le_iff_toNat_le.mp hle
    have : s.round.toNat ≠ client.options.maxModelRounds.toNat := fun h => hne (UInt64.toNat_inj.mp h)
    omega
  have hmax := client.options.maxModelRounds.toNat_lt
  have hadd : (s.round + 1).toNat = s.round.toNat + 1 := by
    rw [UInt64.toNat_add, UInt64.toNat_one]
    omega
  exact ⟨hadd, UInt64.le_iff_toNat_le.mpr (by omega)⟩

theorem loopInv_again {opened : Session} {s t : LoopState} (hs : client.LoopInv env options opened s)
    (hb : client.loopBody env options s = .again t) : client.LoopInv env options opened t := by
  have hspec := loopBody_spec client env options s
  rw [hb] at hspec
  cases hspec with
  | @again response usage executions events hc hneeds =>
    have hcomp := hs.completed hc
    have hadd := hs.toolCalls_add hc
    have hround := round_succ hs.round_le (hc.roundsLeft hneeds)
    refine ⟨?_, ?_, hround.2, ?_, hadd.2, hs.history.concat ⟨response, hcomp, hneeds⟩⟩
    · show afterRound s.session _ = _
      rw [hs.session]
      exact (afterRounds_concat ..).symm
    · show (s.round + 1).toNat = (s.log.rounds ++ [_]).length + 1
      rw [hround.1, hs.round, List.length_append, List.length_singleton]
    · show _ = executedCalls (s.log.rounds ++ [_])
      rw [executedCalls_concat]
      exact hadd.1

theorem round_of_again {opened : Session} {s t : LoopState} (hs : client.LoopInv env options opened s)
    (hb : client.loopBody env options s = .again t) : t.round.toNat = s.round.toNat + 1 := by
  have hspec := loopBody_spec client env options s
  rw [hb] at hspec
  cases hspec with
  | again events hc hneeds => exact (round_succ hs.round_le (hc.roundsLeft hneeds)).1

/-! ## How a generation ends -/

variable (client env options)

inductive Finished (opened : Session) : LoopExit → Prop
  | threw {s : LoopState} {response : Option AIResponse} {e : Exc} (events : List TraceEvent) :
      client.LoopInv env options opened s → client.Fails env options s response e →
      Finished opened
        ⟨.threw e, s.session, s.log.add ⟨client.requestAt env options s, response, [], false⟩ events⟩
  | returned {s : LoopState} {response result : AIResponse} {usage : TokenUsage} {executions : List ToolExecution}
      (events : List TraceEvent) :
      client.LoopInv env options opened s → client.Completes env options s response usage executions →
      result = { response with
        finishReason := result.finishReason, usage, modelRounds := s.round, toolCalls := result.toolCalls } →
      result.toolCalls.toNat = executedCalls s.log.rounds + executions.length →
      (¬ NeedsAnother response ∧ result.finishReason = response.finishReason ∨
        (∃ x ∈ executions, x.output.isError = true) ∧ client.options.stopOnToolError = true ∧
          result.finishReason = .error) →
      Finished opened
        ⟨.returned result, afterRound s.session (client.completedRound env options s response executions),
          s.log.add (client.completedRound env options s response executions) events⟩

variable {client env options}

theorem finished_leave {opened : Session} {s : LoopState} {exit : LoopExit} (hs : client.LoopInv env options opened s)
    (hb : client.loopBody env options s = .leave exit) : client.Finished env options opened exit := by
  have hspec := loopBody_spec client env options s
  rw [hb] at hspec
  cases hspec with
  | fellThrough hout => exact absurd hs.round_le hout
  | failed events _ hf => exact .threw events hs hf
  | answered events hc hn =>
    refine .returned events hs hc rfl ?_ (.inl ⟨hn, rfl⟩)
    exact hs.toolCalls
  | stopped events hc _ herr hstop => exact .returned events hs hc rfl (hs.toolCalls_add hc).1 (.inr ⟨herr, hstop, rfl⟩)

theorem loopInv_start (client : AIClient) (env : RunEnv) (options : GenerateOptions) (opened : Session) {log : RunLog}
    (hlog : log.rounds = []) :
    client.LoopInv env options opened { session := opened, log } := by
  refine ⟨by simp [afterRounds, hlog], by rw [hlog]; rfl, ?_, by rw [hlog]; rfl, UInt64.zero_le, by rw [hlog]; exact .nil⟩
  have : client.options.maxModelRounds.toNat ≠ 0 := fun h => client.rounds_ne (UInt64.toNat_inj.mp h)
  rw [UInt64.le_iff_toNat_le, UInt64.toNat_one]
  omega

theorem Reached.loopInv {opened : Session} {log : RunLog} (hlog : log.rounds = []) {s : LoopState}
    (h : Loop.Reaches (client.loopBody env options) { session := opened, log } s) :
    client.LoopInv env options opened s :=
  h.invariant (fun _ _ => loopInv_again) (loopInv_start client env options opened hlog)

theorem roundLoop_spec (client : AIClient) (env : RunEnv) (options : GenerateOptions) (opened : Session) {log : RunLog}
    (hlog : log.rounds = []) :
    ∃ s exit, client.roundLoop env options opened log = some exit ∧
      Loop.Reaches (client.loopBody env options) { session := opened, log } s ∧
      client.loopBody env options s = .leave exit := by
  have hstart := loopInv_start client env options opened hlog
  have hsome : (client.roundLoop env options opened log).isSome := by
    refine Loop.run_isSome (fun s => client.options.maxModelRounds.toNat - s.round.toNat) ?_ _ hstart (by omega)
    intro s t (hs : client.LoopInv env options opened s) hb
    have ht := loopInv_again hs hb
    have hround := round_of_again hs hb
    have := UInt64.le_iff_toNat_le.mp ht.round_le
    exact ⟨ht, by omega⟩
  obtain ⟨exit, hexit⟩ := Option.isSome_iff_exists.mp hsome
  obtain ⟨s, hs, hb⟩ := Loop.run_reaches _ hexit
  exact ⟨s, exit, hexit, hs, hb⟩

def opened (session : Session) (input : Message) : Session :=
  { session with active := true, messages := session.messages ++ [input] }

theorem begin_ok {session leased : Session} {input : Message} (h : client.begin session input options = .ok leased) :
    client.validateInput input = .ok () ∧ input.role = .user ∧ session.active = false ∧
      leased = { session with active := true } := by
  simp only [begin, bind_eq_ok] at h
  obtain ⟨⟨⟩, hv, _, _, ha⟩ := h
  exact ⟨hv, (validateInput_ok hv).1, Session.acquire_ok ha⟩

def firstRound (client : AIClient) (env : RunEnv) (session : Session) (input : Message) : LoopState :=
  { session := opened session input, log := { events := [client.generationStart env session.id input] } }

/-- **A generation is refused and changes nothing, or its loop runs to a state it leaves from.** -/
theorem generate_reaches (client : AIClient) (env : RunEnv) (session : Session) (input : Message)
    (options : GenerateOptions) :
    (∃ e, client.begin session input options = .error e ∧
      client.generate env session input options = { session, outcome := .error e }) ∨
    ∃ s exit, client.begin session input options = .ok { session with active := true } ∧
      Loop.Reaches (client.loopBody env options) (firstRound client env session input) s ∧
      client.loopBody env options s = .leave exit ∧
      client.generate env session input options = client.conclude env exit := by
  unfold generate
  cases hb : client.begin session input options with
  | error e => exact .inl ⟨e, rfl, rfl⟩
  | ok leased =>
    obtain ⟨_, hrole, _, rfl⟩ := begin_ok hb
    dsimp only
    rw [Session.appendFromClient_of_ne (by rw [hrole]; simp)]
    dsimp only
    have hlog : ({ events := [client.generationStart env session.id input] } : RunLog).rounds = [] := rfl
    obtain ⟨s, exit, hexit, hs, hleave⟩ := roundLoop_spec client env options (opened session input) hlog
    refine .inr ⟨s, exit, rfl, hs, hleave, ?_⟩
    rw [opened] at hexit
    rw [hexit]

theorem generate_cases (client : AIClient) (env : RunEnv) (session : Session) (input : Message)
    (options : GenerateOptions) :
    (∃ e, client.begin session input options = .error e ∧
      client.generate env session input options = { session, outcome := .error e }) ∨
    ∃ leased exit, client.begin session input options = .ok leased ∧
      client.Finished env options (opened session input) exit ∧
      client.generate env session input options = client.conclude env exit := by
  rcases generate_reaches client env session input options with h | ⟨s, exit, hb, hs, hleave, hg⟩
  · exact .inl h
  · exact .inr ⟨_, exit, hb, finished_leave (Reached.loopInv rfl hs) hleave, hg⟩

@[simp] theorem conclude_messages (exit : LoopExit) :
    (client.conclude env exit).session.messages = exit.session.messages := by
  unfold conclude; split <;> rfl

@[simp] theorem conclude_rounds (exit : LoopExit) : (client.conclude env exit).log.rounds = exit.log.rounds := by
  unfold conclude; split <;> rfl

def Continued (client : AIClient) (env : RunEnv) (options : GenerateOptions) (opened : Session)
    (rounds : List Round) : Prop :=
  History.Holds (fun before r => ∃ response, client.Completed env options opened before r response ∧
    NeedsAnother response) rounds

/-- The three ends of a generation, with the rounds it made and the transcript it leaves. -/
inductive Ended (client : AIClient) (env : RunEnv) (session : Session) (input : Message) (options : GenerateOptions)
    (result : GenerateResult) : Prop
  | refused {e : Exc} : client.begin session input options = .error e → result.outcome = .error e →
      result.session = session → result.log.rounds = [] → Ended client env session input options result
  | threw {s : LoopState} {response : Option AIResponse} {e : Exc} :
      client.begin session input options = .ok { session with active := true } →
      client.LoopInv env options (opened session input) s → client.Fails env options s response e →
      result.outcome = .error e →
      result.log.rounds = s.log.rounds ++ [⟨client.requestAt env options s, response, [], false⟩] →
      result.session.messages = session.messages ++ [input] ++ s.log.rounds.flatMap Round.messages →
      Ended client env session input options result
  | returned {rounds : List Round} {last : Round} {response out : AIResponse} :
      client.begin session input options = .ok { session with active := true } →
      client.Continued env options (opened session input) rounds →
      client.Completed env options (opened session input) rounds last response →
      result.outcome = .ok out → out.message = response.message →
      out.modelRounds.toNat = rounds.length + 1 →
      out.toolCalls.toNat = executedCalls (rounds ++ [last]) →
      (NeedsAnother response → rounds.length + 1 ≠ client.options.maxModelRounds.toNat) →
      rounds.length + 1 ≤ client.options.maxModelRounds.toNat →
      (¬ NeedsAnother response ∨ client.options.stopOnToolError = true) →
      result.log.rounds = rounds ++ [last] →
      result.session.messages = session.messages ++ [input] ++ (rounds ++ [last]).flatMap Round.messages →
      Ended client env session input options result

theorem generate_ended (client : AIClient) (env : RunEnv) (session : Session) (input : Message)
    (options : GenerateOptions) :
    client.Ended env session input options (client.generate env session input options) := by
  obtain ⟨e, he, hg⟩ | ⟨leased, exit, hb, hf, hg⟩ := generate_cases client env session input options
  · exact .refused he (by rw [hg]) (by rw [hg]) (by rw [hg])
  obtain ⟨_, _, _, rfl⟩ := begin_ok hb
  cases hf with
  | threw events hs hfail =>
    refine .threw hb hs hfail (by rw [hg]; rfl) (by rw [hg, conclude_rounds]; rfl) ?_
    rw [hg, conclude_messages]
    simp only [hs.session, afterRounds, opened]
  | @returned s response result usage executions events hs hc hresult hcalls hend =>
    refine .returned hb hs.history (hs.completed hc) (by rw [hg]; rfl) (by rw [hresult]) ?_ ?_ ?_ ?_ ?_
      (by rw [hg, conclude_rounds]; rfl) ?_
    · rw [hresult]; exact hs.round
    · rw [executedCalls_concat]; exact hcalls
    · intro hneeds hlen
      exact hc.roundsLeft hneeds (UInt64.toNat_inj.mp (hs.round.trans hlen))
    · have := UInt64.le_iff_toNat_le.mp hc.inBounds
      rwa [hs.round] at this
    · rcases hend with ⟨hn, _⟩ | ⟨_, hstop, _⟩
      · exact .inl hn
      · exact .inr hstop
    · rw [hg, conclude_messages]
      simp [hs.session, afterRounds, afterRound, opened]

end AIClient

end NeuralPlus
