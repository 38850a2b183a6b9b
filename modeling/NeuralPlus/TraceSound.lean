import NeuralPlus.UsageSound

/-!
# The trace of a generation

Each round leaves its events behind: the start of the provider's turn, its end
once the response passed the checks, and the events of its tools as they
started and ended. The events of a run are those of its rounds, between one
start and one terminal event.
-/

namespace NeuralPlus

open Fallible

/-! ## The order of the marks of one task -/

def ExecMark.index : ExecMark → Nat
  | .started i => i
  | .ended i => i

namespace ExecJob

variable {α ρ : Type} {job : ExecJob α ρ} {expected : List ρ} {s s' : ExecState ρ}

def told (i : Nat) : TaskStatus → List ExecMark
  | .idle | .ready => []
  | .running => [.started i]
  | .done => [.started i, .ended i]

def InOrder (s : ExecState ρ) : Prop := ∀ i, s.log.filter (fun m => m.index = i) = told i (s.tasks i)

theorem inOrder_init (job : ExecJob α ρ) : InOrder job.init := by
  intro i
  unfold init
  split <;> rfl

/-- One task changes its status and leaves its mark. -/
theorem InOrder.marked (h : InOrder s) (pc : ExecPc) (i : Nat) (t : TaskStatus) (marks : List ExecMark)
    (hmarks : ∀ m ∈ marks, m.index = i) (ht : told i (s.tasks i) ++ marks = told i t) :
    InOrder { mark s i t with pc, log := s.log ++ marks } := by
  intro j
  show (s.log ++ marks).filter _ = told j ((mark s i t).tasks j)
  rw [List.filter_append, h j, mark_tasks]
  by_cases hj : j = i
  · subst hj
    rw [if_pos rfl, ← ht]
    congr 1
    apply List.filter_eq_self.mpr
    intro m hm
    simpa using hmarks m hm
  · rw [if_neg hj]
    have hnone : marks.filter (fun m => m.index = j) = [] := by
      apply List.filter_eq_nil_iff.mpr
      intro m hm
      simpa [hmarks m hm] using Ne.symm hj
    rw [hnone, List.append_nil]

theorem InOrder.pushed (h : InOrder s) {i : Nat} {next : ExecPc} (hp : job.push s i next = some s') : InOrder s' := by
  unfold push at hp
  split at hp
  · cases hp
    exact h
  · cases hp
    exact h
  · cases hp

theorem inOrder_move (hs : Inv job expected s) (h : InOrder s) (hm : Move job s s') : InOrder s' := by
  have hidle := hs.idle
  cases hm with
  | enter i hpc hi =>
    have hi' : s.tasks i = .idle := hidle i (by simp [hpc, launched])
    apply h.marked _ i .running [.started i]
    · simp [ExecMark.index]
    · rw [hi']
      rfl
  | launch o i hpc hi =>
    have hi' : s.tasks i = .idle := hidle i (by simp [hpc, launched])
    have hmark := h.marked (.launching o (i + 1)) i .ready [] (by simp) (by rw [hi']; rfl)
    rwa [List.append_nil] at hmark
  | start i hi =>
    apply h.marked s.pc i .running [.started i]
    · simp [ExecMark.index]
    · rw [hi]
      rfl
  | finish i hi hpc =>
    apply h.marked s.pc i .done [.ended i]
    · simp [ExecMark.index]
    · rw [hi]
      rfl
  | finishInThread i hi hpc hp =>
    apply InOrder.pushed ?_ hp
    apply h.marked s.pc i .done [.ended i]
    · simp [ExecMark.index]
    · rw [hi]
      rfl
  | collect o i stop failed hpc hi hd hp => exact h.pushed hp
  | _ => exact h

theorem inOrder_run (htot : job.calls.mapIdx job.execute = expected.map .ok) {as : List ExecAct}
    (hr : Lts.Run job.Step job.init as s) : InOrder s := by
  have hboth : Inv job expected s ∧ InOrder s := by
    apply hr.invariant (I := fun s => Inv job expected s ∧ InOrder s)
    · intro s a s' ⟨hs, h⟩ hstep
      exact ⟨inv_move htot hs (move_of_step hstep), inOrder_move hs h (move_of_step hstep)⟩
    · exact ⟨inv_init, inOrder_init job⟩
  exact hboth.2

end ExecJob

namespace AIClient

variable {client : AIClient} {env : RunEnv} {options : GenerateOptions}

/-- Each call is started and then ended, whatever the schedule. -/
theorem executeTools_marks (client : AIClient) (sites : Nat → ToolSite) (calls : List ToolCall)
    (schedule : List ExecAct) (i : Nat) :
    (client.executeTools sites calls schedule).2.filter (fun m => m.index = i) =
      if i < calls.length then [.started i, .ended i] else [] := by
  obtain ⟨xs, hxs⟩ := client.execJob_total sites calls
  obtain ⟨as, hrun, hinv, hpc⟩ := ExecJob.run_returned hxs (client.execJob_max sites calls) schedule
  have horder := ExecJob.inOrder_run hxs hrun i
  have hlog : (client.executeTools sites calls schedule).2 = ((client.execJob sites calls).run schedule).log := by
    simp only [executeTools, hpc]
  rw [hlog, horder]
  by_cases hi : i < calls.length
  · rw [if_pos hi, hinv.done i (by rw [hpc]; exact hi)]
    rfl
  · rw [if_neg hi, hinv.idle i (by rw [hpc]; exact Nat.le_of_not_lt hi)]
    rfl

/-! ## The events of tools -/

theorem executeTool_toolEnd {site : ToolSite} {call : ToolCall} {x : ToolExecution}
    (h : client.executeTool site call = .ok x) :
    x.call = call ∧ ∃ diagnostic, x.toolEnd = client.toolEnd site call x.output diagnostic := by
  unfold executeTool at h
  dsimp only at h
  split at h
  · obtain rfl := Except.ok.inj h
    exact ⟨rfl, _, rfl⟩
  · split at h
    · obtain rfl := Except.ok.inj h
      exact ⟨rfl, _, rfl⟩
    · obtain ⟨error, _, h⟩ := bind_eq_ok.mp h
      by_cases herror : error = ""
      · rw [if_neg (by simpa using herror)] at h
        obtain rfl := Except.ok.inj h
        exact ⟨rfl, _, rfl⟩
      · rw [if_pos herror] at h
        obtain rfl := Except.ok.inj h
        exact ⟨rfl, _, rfl⟩

def markEvent (site : ToolSite) (calls : List ToolCall) (executions : List ToolExecution) :
    ExecMark → Option TraceEvent
  | .started index => (calls[index]?).map (toolStart site)
  | .ended index => (executions[index]?).map ToolExecution.toolEnd

theorem toolEvents_eq (site : ToolSite) (calls : List ToolCall) (executions : List ToolExecution)
    (marks : List ExecMark) : toolEvents site calls executions marks = marks.filterMap (markEvent site calls executions) :=
  rfl

section
variable {sites : Nat → ToolSite} {calls : List ToolCall} {executions : List ToolExecution}
  (hexec : calls.mapIdx (fun i call => client.executeTool (sites i) call) = executions.map .ok)
include hexec

theorem execution_getElem? {i : Nat} {x : ToolExecution} (hx : executions[i]? = some x) :
    calls[i]? = some x.call ∧ x.toolEnd.type = .toolEnd ∧ x.toolEnd.operationId = x.call.id := by
  have hmap := congrArg (·[i]?) hexec
  simp only [List.getElem?_mapIdx, List.getElem?_map, hx, Option.map_some] at hmap
  obtain ⟨call, hcall, hrun⟩ := Option.map_eq_some_iff.mp hmap
  obtain ⟨rfl, diagnostic, hend⟩ := executeTool_toolEnd hrun
  refine ⟨hcall, ?_, ?_⟩
  · rw [hend]
    simp [toolEnd, makeEvent]
  · rw [hend]
    simp [toolEnd, makeEvent]

/-- The event of a mark carries the id of the call. -/
theorem markEvent_spec (site : ToolSite) {mark : ExecMark} {e : TraceEvent}
    (h : markEvent site calls executions mark = some e) :
    ∃ call, calls[mark.index]? = some call ∧ e.operationId = call.id ∧ (e.type = .toolStart ∨ e.type = .toolEnd) := by
  cases mark with
  | started index =>
    obtain ⟨call, hcall, rfl⟩ := Option.map_eq_some_iff.mp h
    exact ⟨call, hcall, rfl, .inl rfl⟩
  | ended index =>
    obtain ⟨x, hx, rfl⟩ := Option.map_eq_some_iff.mp h
    obtain ⟨hcall, htype, hid⟩ := execution_getElem? hexec hx
    exact ⟨x.call, hcall, hid, .inr htype⟩

theorem markEvent_filter (hdistinct : (calls.map ToolCall.id).Nodup) (site : ToolSite) {i : Nat} {call : ToolCall}
    (hcall : calls[i]? = some call) (mark : ExecMark) :
    (markEvent site calls executions mark).filter (fun e => e.operationId = call.id) =
      if mark.index = i then markEvent site calls executions mark else none := by
  cases he : markEvent site calls executions mark with
  | none => simp
  | some e =>
    obtain ⟨other, hother, hid, _⟩ := markEvent_spec hexec site he
    rw [Option.filter_some]
    by_cases hindex : mark.index = i
    · rw [hindex, hcall, Option.some.injEq] at hother
      rw [if_pos hindex, if_pos (by simp [hid, hother])]
    · have hne : other.id ≠ call.id := by
        intro heq
        have hlt := (List.getElem?_eq_some_iff.mp hother).1
        apply hindex
        apply (List.getElem?_inj (by simpa using hlt) hdistinct).mp
        simp [hother, hcall, heq]
      rw [if_neg hindex, if_neg (by simp [hid, hne])]

/-- Of the events of a round those of one call are its start and then its end. -/
theorem toolEvents_of_call (hdistinct : (calls.map ToolCall.id).Nodup) (site : ToolSite) (schedule : List ExecAct)
    {x : ToolExecution} (hx : x ∈ executions) :
    (toolEvents site calls executions (client.executeTools sites calls schedule).2).filter
      (fun e => e.operationId = x.call.id) = [toolStart site x.call, x.toolEnd] := by
  obtain ⟨i, hi⟩ := List.mem_iff_getElem?.mp hx
  obtain ⟨hcall, _, _⟩ := execution_getElem? hexec hi
  have hlt := (List.getElem?_eq_some_iff.mp hcall).1
  have hmarks := executeTools_marks client sites calls schedule i
  rw [if_pos hlt] at hmarks
  rw [toolEvents_eq, List.filter_filterMap]
  simp only [markEvent_filter hexec hdistinct site hcall]
  rw [show (fun mark => if mark.index = i then markEvent site calls executions mark else none) =
    fun mark => if decide (mark.index = i) = true then markEvent site calls executions mark else none by simp]
  rw [← List.filterMap_filter, hmarks]
  simp [markEvent, hcall, hi]

theorem mem_toolEvents {site : ToolSite} {marks : List ExecMark} {e : TraceEvent}
    (he : e ∈ toolEvents site calls executions marks) :
    (∃ x ∈ executions, e.operationId = x.call.id) ∧ (e.type = .toolStart ∨ e.type = .toolEnd) := by
  rw [toolEvents_eq] at he
  obtain ⟨mark, _, hmark⟩ := List.mem_filterMap.mp he
  obtain ⟨call, hcall, hid, htype⟩ := markEvent_spec hexec site hmark
  refine ⟨?_, htype⟩
  have hcalls := calls_of_executed hexec
  rw [← hcalls, List.getElem?_map] at hcall
  obtain ⟨x, hx, rfl⟩ := Option.map_eq_some_iff.mp hcall
  exact ⟨x, List.mem_of_getElem? hx, hid⟩

end

/-! ## The events of the rounds -/

variable (client env options)

def roundEvents (sessionId : String) (i : Nat) (r : Round) : List TraceEvent :=
  match r.response with
  | none => []
  | some response =>
    let sites := site env sessionId i
    [client.providerStart env (.ofNat (i + 1)) r.request, client.providerEnd env (.ofNat (i + 1)) r.request response] ++
      toolEvents (sites 0) response.message.toolCalls r.executions
        (client.executeTools sites response.message.toolCalls (env.schedule i)).2

def tracedRounds (sessionId : String) (rounds : List Round) : List TraceEvent :=
  (rounds.mapIdx (client.roundEvents env sessionId)).flatten

/-- The events of a run: its start, those of the completed rounds, and what the last round adds. -/
inductive RunTrace (session : Session) (input : Message) (result : GenerateResult) : Prop
  | unanswered {rounds : List Round} {last : Round} {e : Exc} :
      client.Continued env options (opened session input) rounds →
      last.request = client.makeRequest env options (afterRounds (opened session input) rounds) →
      last.executions = [] → (last.response = none ∨ ∀ text, e ≠ .maxRounds text) → result.outcome = .error e →
      result.log.rounds = rounds ++ [last] →
      result.log.events = client.generationStart env session.id input :: (client.tracedRounds env session.id rounds ++
        [client.providerStart env (.ofNat (rounds.length + 1)) last.request, client.errorEvent env session.id e]) →
      RunTrace session input result
  | limited {rounds : List Round} {last : Round} {response : AIResponse} {text : String} :
      client.Continued env options (opened session input) rounds →
      last.request = client.makeRequest env options (afterRounds (opened session input) rounds) →
      last.executions = [] → last.response = some response → result.outcome = .error (.maxRounds text) →
      result.log.rounds = rounds ++ [last] →
      result.log.events = client.generationStart env session.id input :: (client.tracedRounds env session.id rounds ++
        [client.providerStart env (.ofNat (rounds.length + 1)) last.request,
         client.providerEnd env (.ofNat (rounds.length + 1)) last.request response,
         client.errorEvent env session.id (.maxRounds text)]) →
      RunTrace session input result
  | returned {rounds : List Round} {last : Round} {response out : AIResponse} {level : TraceLevel} {reason : String} :
      client.Continued env options (opened session input) rounds →
      client.Completed env options (opened session input) rounds last response →
      (¬ NeedsAnother response ∧ level = .info ∧ reason = response.finishReason.toString ∨
        NeedsAnother response ∧ level = .warning ∧ reason = "error") →
      result.outcome = .ok out → result.log.rounds = rounds ++ [last] →
      result.log.events = client.generationStart env session.id input ::
        (client.tracedRounds env session.id (rounds ++ [last]) ++
          [client.generationEnd env session.id level (.ofNat (rounds.length + 1))
            (.ofNat (executedCalls (rounds ++ [last]))) reason]) →
      RunTrace session input result

variable {client env options}

theorem tracedRounds_concat (sessionId : String) (rounds : List Round) (r : Round) :
    client.tracedRounds env sessionId (rounds ++ [r]) =
      client.tracedRounds env sessionId rounds ++ client.roundEvents env sessionId rounds.length r := by
  simp [tracedRounds, List.mapIdx_append]

section
variable {opened : Session} {s t : LoopState}

theorem LoopInv.round_eq (hs : client.LoopInv env options opened s) : s.round = .ofNat (s.log.rounds.length + 1) := by
  rw [← hs.round, UInt64.ofNat_toNat]

theorem LoopInv.session_id (hs : client.LoopInv env options opened s) : s.session.id = opened.id := by
  rw [hs.session]
  rfl

theorem LoopInv.passStart_eq (hs : client.LoopInv env options opened s) : client.passStart env options s =
    client.providerStart env (.ofNat (s.log.rounds.length + 1)) (client.requestAt env options s) := by
  rw [← hs.round_eq]
  rfl

theorem LoopInv.passEvents_eq (hs : client.LoopInv env options opened s) (response : AIResponse)
    (executions : List ToolExecution) : client.passEvents env options s response executions =
      client.roundEvents env opened.id s.log.rounds.length (client.completedRound env options s response executions) := by
  unfold passEvents roundEvents completedRound
  dsimp only
  rw [← hs.round_eq, ← hs.session_id]
  rfl

theorem LoopInv.requestAt_eq (hs : client.LoopInv env options opened s) :
    client.requestAt env options s = client.makeRequest env options (afterRounds opened s.log.rounds) := by
  rw [← hs.session]
  rfl

theorem checkCallIds_error {requestId : String} {e : Exc} : ∀ {seen : List String} {calls : List ToolCall},
    client.checkCallIds requestId seen calls = .error e →
    ∃ message provider status code requestId, e = .provider message provider status code requestId
  | _, [], h => by cases h
  | seen, call :: calls, h => by
    rw [checkCallIds] at h
    by_cases hempty : call.id = "" ∨ call.name = ""
    · rw [if_pos hempty] at h
      exact ⟨_, _, _, _, _, (Except.error.inj h).symm⟩
    · rw [if_neg hempty] at h
      by_cases hseen : call.id ∈ seen
      · rw [if_pos hseen] at h
        exact ⟨_, _, _, _, _, (Except.error.inj h).symm⟩
      · rw [if_neg hseen] at h
        exact checkCallIds_error h

theorem acceptResponse_error {response : AIResponse} {e : Exc} (h : client.acceptResponse s response = .error e) :
    ∃ message provider status code requestId, e = .provider message provider status code requestId := by
  by_cases hrole : response.message.role ≠ .assistant
  · rw [acceptResponse, throwIf, if_pos hrole] at h
    exact ⟨_, _, _, _, _, (Except.error.inj h).symm⟩
  by_cases hcount : response.message.toolCalls.length > (client.remainingCalls s.cumulativeToolCalls).toNat
  · rw [acceptResponse, throwIf, if_neg hrole, throwIf, if_pos hcount] at h
    exact ⟨_, _, _, _, _, (Except.error.inj h).symm⟩
  rw [acceptResponse, throwIf, if_neg hrole, throwIf, if_neg hcount] at h
  cases hids : client.checkCallIds response.providerRequestId [] response.message.toolCalls with
  | error e' =>
    rw [hids] at h
    obtain rfl := Except.error.inj h
    exact checkCallIds_error hids
  | ok _ =>
    rw [hids] at h
    have hadd : addUsage s.cumulativeUsage response.usage (s.round = 1) = .error e := h
    rcases addUsage_cases s.cumulativeUsage response.usage (s.round = 1) with ⟨_, new, hnew, _⟩ | ⟨_, herror⟩
    · rw [hnew] at hadd
      cases hadd
    · rw [herror] at hadd
      exact ⟨_, _, _, _, _, (Except.error.inj hadd).symm⟩

end

def TraceInv (client : AIClient) (env : RunEnv) (session : Session) (input : Message) (s : LoopState) : Prop :=
  s.log.events = client.generationStart env session.id input :: client.tracedRounds env session.id s.log.rounds

section
variable {session : Session} {input : Message} {s t : LoopState}

theorem traceInv_again (hs : client.LoopInv env options (opened session input) s)
    (h : TraceInv client env session input s) (hb : client.loopBody env options s = .again t) :
    TraceInv client env session input t := by
  have htraces := loopBody_traces client env options s
  rw [hb] at htraces
  cases htraces with
  | again hc _ =>
    show s.log.events ++ client.passEvents env options s _ _ = _ :: client.tracedRounds env session.id (s.log.rounds ++ [_])
    rw [h, hs.passEvents_eq, tracedRounds_concat]
    rfl

theorem Reached.traceInv
    (h : Loop.Reaches (client.loopBody env options) (firstRound client env session input) s) :
    TraceInv client env session input s := by
  have hloop : ∀ t, Loop.Reaches (client.loopBody env options) (firstRound client env session input) t →
      client.LoopInv env options (opened session input) t := fun _ => Reached.loopInv rfl
  apply h.invariant_of hloop
  · intro t u hs ht hb
    exact traceInv_again hs ht hb
  · rfl

theorem events_of_failed (hs : client.LoopInv env options (opened session input) s)
    (h : TraceInv client env session input s) (round : Round) (events : List TraceEvent) (e : Exc) :
    (client.conclude env ⟨.threw e, s.session, s.log.add round events⟩).log.events =
      client.generationStart env session.id input :: (client.tracedRounds env session.id s.log.rounds ++
        (events ++ [client.errorEvent env session.id e])) := by
  have hid : s.session.id = session.id := hs.session_id
  show s.log.events ++ events ++ [client.errorEvent env s.session.id e] = _
  rw [h, hid]
  simp

theorem events_of_returned (hs : client.LoopInv env options (opened session input) s)
    (h : TraceInv client env session input s) {response : AIResponse}
    {executions : List ToolExecution} {toolCalls : SizeT}
    (hcalls : toolCalls.toNat = executedCalls s.log.rounds + executions.length)
    (level : TraceLevel) (reason : String) :
    s.log.events ++ (client.passEvents env options s response executions ++
        [client.generationEnd env s.session.id level s.round toolCalls reason]) =
      client.generationStart env session.id input ::
        (client.tracedRounds env session.id
            (s.log.rounds ++ [client.completedRound env options s response executions]) ++
          [client.generationEnd env session.id level (.ofNat (s.log.rounds.length + 1))
            (.ofNat (executedCalls (s.log.rounds ++ [client.completedRound env options s response executions])))
            reason]) := by
  have hid : s.session.id = session.id := hs.session_id
  have hsum : executedCalls (s.log.rounds ++ [client.completedRound env options s response executions]) =
      toolCalls.toNat := by
    rw [executedCalls_concat, hcalls]
    rfl
  rw [h, hs.passEvents_eq, tracedRounds_concat, hsum, UInt64.ofNat_toNat, hid, ← hs.round_eq]
  simp [opened]

/-- **What a run that took the lease traces.** -/
theorem generate_traces {leased : Session} (hbegin : client.begin session input options = .ok leased) :
    client.RunTrace env options session input (client.generate env session input options) := by
  rcases generate_reaches client env session input options with ⟨e, he, _⟩ | ⟨s, exit, _, hreach, hleave, hg⟩
  · rw [hbegin] at he
    cases he
  have hs := Reached.loopInv rfl hreach
  have ht := Reached.traceInv hreach
  have htraces := loopBody_traces client env options s
  rw [hleave] at htraces
  rw [hg]
  cases htraces with
  | fellThrough hout => exact absurd hs.round_le hout
  | providerThrew _ _ =>
    apply RunTrace.unanswered hs.history hs.requestAt_eq rfl (.inl rfl) rfl rfl
    rw [events_of_failed hs ht, hs.passStart_eq]
    rfl
  | rejected _ _ he =>
    apply RunTrace.unanswered hs.history hs.requestAt_eq rfl ?_ rfl rfl
    · rw [events_of_failed hs ht, hs.passStart_eq]
      rfl
    · obtain ⟨_, _, _, _, _, rfl⟩ := acceptResponse_error he
      exact .inr nofun
  | lastRound _ _ _ _ _ =>
    apply RunTrace.limited hs.history hs.requestAt_eq rfl rfl rfl rfl
    rw [events_of_failed hs ht, hs.passStart_eq, ← hs.round_eq]
    rfl
  | answered hc hn =>
    apply RunTrace.returned hs.history (hs.completed hc) (.inl ⟨hn, rfl, rfl⟩) rfl rfl
    exact events_of_returned hs ht hs.toolCalls _ _
  | stopped hc hcalls _ _ =>
    apply RunTrace.returned hs.history (hs.completed hc) (.inr ⟨.inl hcalls, rfl, rfl⟩) rfl rfl
    exact events_of_returned hs ht (hs.toolCalls_add hc).1 _ _

end

end AIClient

/-! ## Spans -/

structure RoundSpan where
  start : TraceEvent
  stop : Option TraceEvent
  tools : List TraceEvent

def RoundSpan.events (span : RoundSpan) : List TraceEvent := span.start :: (span.stop.toList ++ span.tools)

/-- The span of the provider closes before those of the round's tools, one for each executed call. -/
structure RoundSpan.Pairs (span : RoundSpan) (r : Round) : Prop where
  start : span.start.type = .providerStart
  stop : ∀ e, span.stop = some e → e.type = .providerEnd ∧ e.operationId = span.start.operationId
  unanswered : span.stop = none → span.tools = []
  calls : ∀ x ∈ r.executions, ∃ first second,
    span.tools.filter (fun e => e.operationId = x.call.id) = [first, second] ∧ first.type = .toolStart ∧
      second.type = .toolEnd
  tools : ∀ e ∈ span.tools,
    (∃ x ∈ r.executions, e.operationId = x.call.id) ∧ (e.type = .toolStart ∨ e.type = .toolEnd)

/-- One start, the spans of the rounds in order, and one terminal event that
tells whether the run returned. A provider's turn is left open only by the
round in which the run failed. -/
def WellTraced (result : GenerateResult) : Prop :=
  ∃ first spans terminal,
    result.log.events = first :: (spans.flatMap RoundSpan.events ++ [terminal]) ∧ first.type = .generationStart ∧
    List.Forall₂ RoundSpan.Pairs spans result.log.rounds ∧
    (∀ before span after, spans = before ++ span :: after → span.stop = none →
      after = [] ∧ ∃ e, result.outcome = .error e) ∧
    (terminal.type = .generationEnd ∧ (∃ out, result.outcome = .ok out) ∨
      terminal.type = .error ∧ ∃ e, result.outcome = .error e)

namespace AIClient

variable {client : AIClient} {env : RunEnv} {options : GenerateOptions} {session : Session} {input : Message}

theorem providerStart_type (round : SizeT) (request : AIRequest) :
    (client.providerStart env round request).type = .providerStart := rfl

theorem providerEnd_spec (round : SizeT) (request : AIRequest) (response : AIResponse) :
    (client.providerEnd env round request response).type = .providerEnd ∧
      (client.providerEnd env round request response).operationId =
        (client.providerStart env round request).operationId := by
  simp [providerEnd, providerStart, event, makeEvent]

theorem Completed.span {opened : Session} {before : List Round} {r : Round} {response : AIResponse}
    (h : client.Completed env options opened before r response) :
    ∃ span : RoundSpan, client.roundEvents env opened.id before.length r = span.events ∧ span.Pairs r ∧
      span.stop ≠ none := by
  let sites := site env opened.id before.length
  refine ⟨⟨client.providerStart env (.ofNat (before.length + 1)) r.request,
    some (client.providerEnd env (.ofNat (before.length + 1)) r.request response),
    toolEvents (sites 0) response.message.toolCalls r.executions
      (client.executeTools sites response.message.toolCalls (env.schedule before.length)).2⟩, ?_, ?_, nofun⟩
  · rw [roundEvents, h.answer]
    rfl
  · refine ⟨providerStart_type _ _, ?_, nofun, ?_, ?_⟩
    · intro e he
      obtain rfl := Option.some.inj he
      exact providerEnd_spec _ _ _
    · intro x hx
      refine ⟨_, _, toolEvents_of_call h.executed h.distinct (sites 0) (env.schedule before.length) hx, rfl, ?_⟩
      obtain ⟨i, hi⟩ := List.mem_iff_getElem?.mp hx
      exact (execution_getElem? h.executed hi).2.1
    · intro e he
      exact mem_toolEvents h.executed he

theorem spans_of_history {opened : Session} {rounds : List Round}
    (h : History.Holds (fun before r => ∃ response, client.Completed env options opened before r response) rounds) :
    ∃ spans : List RoundSpan, client.tracedRounds env opened.id rounds = spans.flatMap RoundSpan.events ∧
      List.Forall₂ RoundSpan.Pairs spans rounds ∧ ∀ span ∈ spans, span.stop ≠ none := by
  induction rounds using List.reverseRecOn with
  | nil => exact ⟨[], rfl, .nil, by simp⟩
  | append_singleton rounds r ih =>
    obtain ⟨response, hc⟩ := h.last
    obtain ⟨span, hevents, hpairs, hstop⟩ := hc.span
    obtain ⟨spans, hflat, hall, hstops⟩ := ih h.left
    refine ⟨spans ++ [span], ?_, List.rel_append hall (.cons hpairs .nil), ?_⟩
    · rw [tracedRounds_concat, hflat, hevents, List.flatMap_append, List.flatMap_singleton]
    · rw [List.forall_mem_append, List.forall_mem_singleton]
      exact ⟨hstops, hstop⟩

def failedSpan (client : AIClient) (env : RunEnv) (round : SizeT) (request : AIRequest) (response : Option AIResponse) :
    RoundSpan :=
  ⟨client.providerStart env round request, response.map (client.providerEnd env round request), []⟩

theorem failedSpan_pairs {last : Round} (hlast : last.executions = []) (round : SizeT) (request : AIRequest)
    (response : Option AIResponse) : (client.failedSpan env round request response).Pairs last := by
  refine ⟨rfl, ?_, fun _ => rfl, ?_, ?_⟩
  · intro e he
    obtain ⟨r, _, rfl⟩ := Option.map_eq_some_iff.mp he
    exact providerEnd_spec _ _ _
  · intro x hx
    rw [hlast] at hx
    exact absurd hx List.not_mem_nil
  · intro e he
    exact absurd he List.not_mem_nil

theorem generationStart_type : (client.generationStart env session.id input).type = .generationStart := by
  simp [generationStart, event, makeEvent]

theorem errorEvent_type (e : Exc) : (client.errorEvent env session.id e).type = .error := by
  simp [errorEvent, event, makeEvent]

theorem wellTraced_of_failed {result : GenerateResult} {rounds : List Round} {last : Round} {e : Exc} {round : SizeT}
    (response : Option AIResponse) (hrounds : client.Continued env options (opened session input) rounds)
    (hexec : last.executions = []) (hout : result.outcome = .error e) (hlog : result.log.rounds = rounds ++ [last])
    (hevents : result.log.events = client.generationStart env session.id input ::
      (client.tracedRounds env session.id rounds ++ ((client.failedSpan env round last.request response).events ++
        [client.errorEvent env session.id e]))) : WellTraced result := by
  obtain ⟨spans, hflat, hall, hstops⟩ := spans_of_history hrounds.completed
  have hid : (opened session input).id = session.id := rfl
  refine ⟨client.generationStart env session.id input, spans ++ [client.failedSpan env round last.request response],
    client.errorEvent env session.id e, ?_, generationStart_type, ?_, ?_, .inr ⟨errorEvent_type e, e, hout⟩⟩
  · rw [hevents, ← hid, hflat]
    simp
  · rw [hlog]
    exact List.rel_append hall (.cons (failedSpan_pairs hexec _ _ _) .nil)
  · intro before span after hsplit hstop
    refine ⟨?_, e, hout⟩
    rcases History.concat_split hsplit with ⟨_, _, hnil⟩ | ⟨after', _, hearlier⟩
    · exact hnil
    · exact absurd hstop (hstops span (by rw [hearlier]; simp))

/-- **The trace of a run is well formed**, whatever the interleaving of its tools. -/
theorem generate_wellTraced {leased : Session} (hbegin : client.begin session input options = .ok leased) :
    WellTraced (client.generate env session input options) := by
  have htraces : client.RunTrace env options session input (client.generate env session input options) :=
    generate_traces hbegin
  cases htraces with
  | unanswered hrounds _ hexec _ hout hlog hevents =>
    exact wellTraced_of_failed none hrounds hexec hout hlog hevents
  | limited hrounds _ hexec _ hout hlog hevents =>
    exact wellTraced_of_failed (some _) hrounds hexec hout hlog hevents
  | @returned rounds last response out level reason hrounds hlast _ hout hlog hevents =>
    obtain ⟨spans, hflat, hall, hstops⟩ := spans_of_history (hrounds.completed.concat ⟨response, hlast⟩)
    rw [show client.tracedRounds env session.id (rounds ++ [last]) = spans.flatMap RoundSpan.events from hflat] at hevents
    refine ⟨_, spans, _, hevents, generationStart_type, ?_, ?_, .inl ⟨?_, out, hout⟩⟩
    · rw [hlog]
      exact hall
    · intro before span after hsplit hstop
      exact absurd hstop (hstops span (by rw [hsplit]; simp))
    · simp [generationEnd, event, makeEvent]

theorem generate_wellTraced_lookup :
    WellTraced (lookupClient.generate lookupEnv { id := "session-1" } (.userText "hello") {}) := by
  have hbegin : lookupClient.begin { id := "session-1" } (.userText "hello") {} =
    .ok { id := "session-1", active := true } := rfl
  exact generate_wellTraced hbegin

end AIClient

end NeuralPlus
