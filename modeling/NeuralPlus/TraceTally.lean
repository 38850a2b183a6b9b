import NeuralPlus.TraceSound

/-!
# What the trace tells of the transcript

Every message of a run is announced, a response by the end of its provider's
turn and a result by the end of its tool, in any order the tools finish in. A
reader of the metadata alone can count them.
-/

namespace NeuralPlus

open Fallible

/-! ## Tallies -/

structure Tally where
  responses : Nat
  results : Nat
  failures : Nat
  deriving DecidableEq

instance : Add Tally where
  add a b := ⟨a.responses + b.responses, a.results + b.results, a.failures + b.failures⟩

theorem Tally.add_mk (a b c a' b' c' : Nat) : Tally.mk a b c + Tally.mk a' b' c' = ⟨a + a', b + b', c + c'⟩ := rfl

def Tally.messages (t : Tally) : Nat := t.responses + t.results

theorem Tally.messages_add (a b : Tally) : (a + b).messages = a.messages + b.messages := by
  show a.responses + b.responses + (a.results + b.results) = a.responses + a.results + (b.responses + b.results)
  omega

def tallyOf (messages : List Message) : Tally where
  responses := messages.countP fun m => m.role = .assistant
  results := messages.countP fun m => m.role = .tool
  failures := messages.countP fun m => m.role = .tool ∧ m.toolError = true

def Failed (e : TraceEvent) : Prop := e.attributes.find? "is_error" = some (.boolean true)

instance (e : TraceEvent) : Decidable (Failed e) := inferInstanceAs (Decidable (_ = _))

def tallyOfTrace (events : List TraceEvent) : Tally where
  responses := events.countP fun e => e.type = .providerEnd
  results := events.countP fun e => e.type = .toolEnd
  failures := events.countP fun e => e.type = .toolEnd ∧ Failed e

theorem tallyOf_append (a b : List Message) : tallyOf (a ++ b) = tallyOf a + tallyOf b := by
  unfold tallyOf
  rw [List.countP_append, List.countP_append, List.countP_append]
  rfl

theorem tallyOfTrace_append (a b : List TraceEvent) : tallyOfTrace (a ++ b) = tallyOfTrace a + tallyOfTrace b := by
  unfold tallyOfTrace
  rw [List.countP_append, List.countP_append, List.countP_append]
  rfl

/-- Events that end no tool add neither a result nor a failure. -/
theorem tallyOfTrace_append_of_ne {a b : List TraceEvent} (h : ∀ e ∈ b, e.type ≠ .toolEnd) :
    (tallyOfTrace (a ++ b)).results = (tallyOfTrace a).results ∧
      (tallyOfTrace (a ++ b)).failures = (tallyOfTrace a).failures := by
  have hresults : b.countP (fun e => e.type = .toolEnd) = 0 := by
    rw [List.countP_eq_zero]
    intro e he
    simpa using h e he
  have hfailures : b.countP (fun e => e.type = .toolEnd ∧ Failed e) = 0 := by
    rw [List.countP_eq_zero]
    intro e he
    simp [h e he]
  constructor
  · show (a ++ b).countP _ = a.countP _
    rw [List.countP_append, hresults, Nat.add_zero]
  · show (a ++ b).countP _ = a.countP _
    rw [List.countP_append, hfailures, Nat.add_zero]

theorem length_eq_tally {messages : List Message} (h : ∀ m ∈ messages, m.role = .assistant ∨ m.role = .tool) :
    messages.length = (tallyOf messages).messages := by
  induction messages with
  | nil => rfl
  | cons m messages ih =>
    have hone : (tallyOf [m]).messages = 1 := by
      unfold tallyOf Tally.messages
      rcases h m List.mem_cons_self with hrole | hrole <;> simp [hrole]
    rw [← List.singleton_append, List.length_append, tallyOf_append, Tally.messages_add, hone,
      ih fun m hm => h m (List.mem_cons_of_mem _ hm)]
    rfl

/-! ## The ends of the tools -/

def ExecMark.ended? : ExecMark → Option Nat
  | .started _ => none
  | .ended index => some index

def endedOf (marks : List ExecMark) : List Nat := marks.filterMap ExecMark.ended?

theorem count_endedOf (marks : List ExecMark) (i : Nat) : (endedOf marks).count i = marks.count (.ended i) := by
  induction marks with
  | nil => rfl
  | cons mark marks ih =>
    unfold endedOf at ih ⊢
    cases mark with
    | started index => rw [List.filterMap_cons_none (show (ExecMark.started index).ended? = none from rfl), ih,
        List.count_cons_of_ne (by simp)]
    | ended index =>
      rw [List.filterMap_cons_some (show (ExecMark.ended index).ended? = some index from rfl), List.count_cons,
        List.count_cons, ih]
      simp

theorem endedOf_perm {marks : List ExecMark} {n : Nat}
    (h : ∀ i, marks.filter (fun m => m.index = i) = if i < n then [.started i, .ended i] else []) :
    (endedOf marks).Perm (List.range n) := by
  rw [List.perm_iff_count]
  intro i
  have hfilter : (marks.filter fun m => m.index = i).count (.ended i) = marks.count (.ended i) :=
    List.count_filter (by simp [ExecMark.index])
  rw [count_endedOf, ← hfilter, h, List.count_range]
  by_cases hi : i < n
  · rw [if_pos hi, if_pos hi, List.count_cons_of_ne (by simp), List.count_singleton_self]
  · rw [if_neg hi, if_neg hi, List.count_nil]

theorem filterMap_getElem? {α β : Type} (f : α → β) (xs : List α) :
    (List.range xs.length).filterMap (fun i => (xs[i]?).map f) = xs.map f := by
  induction xs using List.reverseRecOn with
  | nil => rfl
  | append_singleton xs x ih =>
    have hbefore : (List.range xs.length).filterMap (fun i => ((xs ++ [x])[i]?).map f) =
        (List.range xs.length).filterMap fun i => (xs[i]?).map f := by
      apply List.filterMap_congr
      intro i hi
      rw [List.getElem?_append_left (List.mem_range.mp hi)]
    rw [List.length_append, List.length_singleton, List.range_succ, List.filterMap_append, hbefore, ih, List.map_append]
    simp

namespace AIClient

variable {client : AIClient} {env : RunEnv} {options : GenerateOptions} {session : Session} {input : Message}

section
variable {sites : Nat → ToolSite} {calls : List ToolCall} {executions : List ToolExecution}
  (hexec : calls.mapIdx (fun i call => client.executeTool (sites i) call) = executions.map .ok)
include hexec

theorem filter_toolEnds (site : ToolSite) (marks : List ExecMark) :
    (toolEvents site calls executions marks).filter (fun e => e.type = .toolEnd) =
      (endedOf marks).filterMap fun i => (executions[i]?).map ToolExecution.toolEnd := by
  rw [toolEvents_eq, List.filter_filterMap, endedOf, List.filterMap_filterMap]
  apply List.filterMap_congr
  intro mark _
  cases mark with
  | started index =>
    show ((calls[index]?).map (toolStart site)).filter _ = none
    cases calls[index]? <;> rfl
  | ended index =>
    show ((executions[index]?).map ToolExecution.toolEnd).filter _ = (executions[index]?).map ToolExecution.toolEnd
    cases hx : executions[index]? with
    | none => rfl
    | some x =>
      have htype := (execution_getElem? hexec hx).2.1
      simp [htype]

theorem toolEnds_perm (site : ToolSite) (schedule : List ExecAct) :
    ((toolEvents site calls executions (client.executeTools sites calls schedule).2).filter
      fun e => e.type = .toolEnd).Perm (executions.map ToolExecution.toolEnd) := by
  have hlength : calls.length = executions.length := by
    rw [← calls_of_executed hexec, List.length_map]
  rw [filter_toolEnds hexec, ← filterMap_getElem?, ← hlength]
  exact (endedOf_perm (executeTools_marks client sites calls schedule)).filterMap _

theorem failed_toolEnd {x : ToolExecution} (hx : x ∈ executions) : Failed x.toolEnd ↔ x.output.isError = true := by
  obtain ⟨i, call, _, hrun⟩ := executed_mem hexec hx
  obtain ⟨_, diagnostic, hend⟩ := executeTool_toolEnd hrun
  have hattribute : x.toolEnd.attributes.find? "is_error" = some (.boolean x.output.isError) := by
    rw [hend]
    unfold toolEnd TraceEvent.capture
    split <;> rfl
  unfold Failed
  rw [hattribute]
  simp

/-- The tools of a round add one result for each execution, and one failure for each that failed. -/
theorem tallyOfTrace_toolEvents (site : ToolSite) (schedule : List ExecAct) :
    tallyOfTrace (toolEvents site calls executions (client.executeTools sites calls schedule).2) =
      ⟨0, executions.length, executions.countP fun x => x.output.isError⟩ := by
  have hperm := toolEnds_perm hexec site schedule
  have hresponses : (toolEvents site calls executions (client.executeTools sites calls schedule).2).countP
      (fun e => e.type = .providerEnd) = 0 := by
    rw [List.countP_eq_zero]
    intro e he
    rcases (mem_toolEvents hexec he).2 with htype | htype <;> simp [htype]
  have hresults : (toolEvents site calls executions (client.executeTools sites calls schedule).2).countP
      (fun e => e.type = .toolEnd) = executions.length := by
    rw [List.countP_eq_length_filter, hperm.length_eq, List.length_map]
  have hfailures : (toolEvents site calls executions (client.executeTools sites calls schedule).2).countP
      (fun e => e.type = .toolEnd ∧ Failed e) = executions.countP fun x => x.output.isError := by
    have hcongr := hperm.countP_eq fun e => decide (Failed e)
    rw [List.countP_filter, List.countP_map] at hcongr
    have hfailed : executions.countP ((fun e => decide (Failed e)) ∘ ToolExecution.toolEnd) =
        executions.countP fun x => x.output.isError := by
      apply List.countP_congr
      intro x hx
      simpa using failed_toolEnd hexec hx
    rw [← hfailed, ← hcongr]
    apply List.countP_congr
    intro e _
    simp [and_comm]
  unfold tallyOfTrace
  rw [hresponses, hresults, hfailures]

theorem starts_toolEvents (site : ToolSite) (marks : List ExecMark) :
    (toolEvents site calls executions marks).countP (fun e => e.type = .providerStart) = 0 := by
  rw [List.countP_eq_zero]
  intro e he
  rcases (mem_toolEvents hexec he).2 with htype | htype <;> simp [htype]

end

/-! ## Rounds -/

theorem tallyOf_answers {executions : List ToolExecution} (hnamed : Named (executions.map ToolExecution.call)) :
    tallyOf (answers executions) = ⟨0, executions.length, executions.countP fun x => x.output.isError⟩ := by
  have hrecords := answers_records hnamed
  generalize answers executions = messages at hrecords
  clear hnamed
  induction hrecords with
  | nil => rfl
  | @cons x m executions messages hm _ ih =>
    obtain ⟨_, hrecord⟩ := hm
    have hone : tallyOf [m] = ⟨0, 1, if x.output.isError then 1 else 0⟩ := by
      unfold tallyOf
      simp [List.countP_cons, hrecord.role, hrecord.isError]
    rw [← List.singleton_append, tallyOf_append, hone, ih]
    rw [Tally.add_mk, List.length_cons, List.countP_cons, Nat.add_comm executions.length, Nat.add_comm (List.countP _ _)]

section
variable {opened : Session} {before : List Round} {r : Round} {response : AIResponse}
  (h : client.Completed env options opened before r response)
include h

def tallyOfRound (r : Round) : Tally := ⟨1, r.executions.length, r.executions.countP fun x => x.output.isError⟩

theorem Completed.tally_messages : tallyOf r.messages = tallyOfRound r := by
  have hnamed : Named (r.executions.map ToolExecution.call) := by
    rw [calls_of_executed h.executed]
    exact h.named
  have hresponse : tallyOf [response.message] = ⟨1, 0, 0⟩ := by
    unfold tallyOf
    simp [h.role]
  rw [h.messages, ← List.singleton_append, tallyOf_append, hresponse, tallyOf_answers hnamed, Tally.add_mk]
  simp [tallyOfRound]

/-- **Step.** The events of a completed round tell the messages it appended. -/
theorem Completed.tally_events : tallyOfTrace (client.roundEvents env opened.id before.length r) = tallyOfRound r ∧
    (client.roundEvents env opened.id before.length r).countP (fun e => e.type = .providerStart) = 1 := by
  rw [roundEvents, h.answer]
  constructor
  · have hstart : tallyOfTrace [client.providerStart env (.ofNat (before.length + 1)) r.request,
        client.providerEnd env (.ofNat (before.length + 1)) r.request response] = ⟨1, 0, 0⟩ := by
      unfold tallyOfTrace
      simp [providerStart_type, (providerEnd_spec _ _ _).1]
    dsimp only
    rw [tallyOfTrace_append, hstart, tallyOfTrace_toolEvents h.executed, Tally.add_mk]
    simp [tallyOfRound]
  · dsimp only
    rw [List.countP_append, starts_toolEvents h.executed]
    simp [providerStart_type, (providerEnd_spec _ _ _).1]

end

section
variable {opened : Session} {rounds : List Round}
  (h : History.Holds (fun before r => ∃ response, client.Completed env options opened before r response) rounds)
include h

theorem tally_of_history : tallyOfTrace (client.tracedRounds env opened.id rounds) = tallyOf (rounds.flatMap Round.messages) ∧
    (tallyOf (rounds.flatMap Round.messages)).responses = rounds.length ∧
    (tallyOf (rounds.flatMap Round.messages)).results = executedCalls rounds ∧
    (client.tracedRounds env opened.id rounds).countP (fun e => e.type = .providerStart) = rounds.length := by
  induction rounds using List.reverseRecOn with
  | nil => exact ⟨rfl, rfl, rfl, rfl⟩
  | append_singleton rounds r ih =>
    obtain ⟨response, hc⟩ := h.last
    obtain ⟨htally, hresponses, hresults, hstarts⟩ := ih h.left
    obtain ⟨hevents, hstart⟩ := hc.tally_events
    rw [tracedRounds_concat, tallyOfTrace_append, htally, hevents, List.flatMap_append, tallyOf_append,
      List.flatMap_singleton, hc.tally_messages, List.countP_append, hstarts, hstart, executedCalls_concat,
      List.length_append, List.length_singleton, ← hresponses, ← hresults]
    exact ⟨rfl, rfl, rfl, rfl⟩

theorem messages_of_history :
    (rounds.flatMap Round.messages).length = (tallyOf (rounds.flatMap Round.messages)).messages := by
  apply length_eq_tally
  intro m hm
  obtain ⟨r, hr, hm⟩ := List.mem_flatMap.mp hm
  obtain ⟨before, response, hc⟩ := h.exists_before hr
  obtain ⟨b, hwf, _, hmessages, _⟩ := hc.block
  rw [hmessages, Block.messages] at hm
  rcases List.mem_cons.mp hm with rfl | hm
  · exact .inl hwf.1
  · obtain ⟨call, _, hanswer⟩ := mem_of_forall₂ hwf.2.flip m hm
    exact .inr hanswer.1

end

end AIClient

/-! ## Announcements -/

/-- A provider's start announces the messages that were there before the run, the input, and one message for each
end that was traced before it. -/
def Announces (initial : Nat) (before : List TraceEvent) (e : TraceEvent) : Prop :=
  e.type = .providerStart → e.attributes.find? "message_count" =
    some (.unsigned (.ofNat (initial + 1 + (tallyOfTrace before).messages)))

namespace AIClient

variable {client : AIClient} {env : RunEnv} {options : GenerateOptions} {session : Session} {input : Message}

theorem announces_providerStart {initial : Nat} {before : List TraceEvent} (round : SizeT) {request : AIRequest}
    (h : request.messages.length = initial + 1 + (tallyOfTrace before).messages) :
    Announces initial before (client.providerStart env round request) := by
  intro _
  rw [← h]
  rfl

theorem announces_of_ne {initial : Nat} {before : List TraceEvent} {e : TraceEvent} (h : e.type ≠ .providerStart) :
    Announces initial before e := fun htype => absurd htype h

theorem holds_of_forall {α : Type} {P : List α → α → Prop} {l : List α} (h : ∀ before, ∀ a ∈ l, P before a) :
    History.Holds P l := by
  rintro before a after rfl
  exact h before a (by simp)

def startedTrace (client : AIClient) (env : RunEnv) (session : Session) (input : Message) (rounds : List Round) :
    List TraceEvent := client.generationStart env session.id input :: client.tracedRounds env session.id rounds

section
variable {rounds : List Round}
  (h : History.Holds (fun before r => ∃ response, client.Completed env options (opened session input) before r response)
    rounds)
include h

/-- The trace so far tells what the rounds appended. -/
theorem tally_startedTrace :
    tallyOfTrace (client.startedTrace env session input rounds) = tallyOf (rounds.flatMap Round.messages) := by
  have hfirst : tallyOfTrace [client.generationStart env session.id input] = ⟨0, 0, 0⟩ := by
    unfold tallyOfTrace
    simp [generationStart_type]
  have hrounds : tallyOfTrace (client.tracedRounds env session.id rounds) = tallyOf (rounds.flatMap Round.messages) :=
    (tally_of_history h).1
  rw [startedTrace, ← List.singleton_append, tallyOfTrace_append, hfirst, hrounds]
  show Tally.mk (0 + _) (0 + _) (0 + _) = _
  simp

theorem starts_startedTrace :
    (client.startedTrace env session input rounds).countP (fun e => e.type = .providerStart) = rounds.length := by
  have hrounds : (client.tracedRounds env session.id rounds).countP (fun e => e.type = .providerStart) =
      rounds.length := (tally_of_history h).2.2.2
  rw [startedTrace, List.countP_cons_of_neg (by simp [generationStart_type]), hrounds]

theorem messages_startedTrace {request : AIRequest}
    (hrequest : request = client.makeRequest env options (afterRounds (opened session input) rounds)) :
    request.messages.length =
      session.messages.length + 1 + (tallyOfTrace (client.startedTrace env session input rounds)).messages := by
  rw [tally_startedTrace h, ← messages_of_history h, hrequest]
  show (session.messages ++ [input] ++ rounds.flatMap Round.messages).length = _
  rw [List.length_append, List.length_append, List.length_singleton]

/-- **Run.** The starts of the completed rounds announce the transcripts of their requests. -/
theorem announced_startedTrace :
    History.Holds (Announces session.messages.length) (client.startedTrace env session input rounds) := by
  induction rounds using List.reverseRecOn with
  | nil =>
    rw [startedTrace, show client.tracedRounds env session.id [] = [] from rfl, History.holds_singleton]
    apply announces_of_ne
    rw [generationStart_type]
    decide
  | append_singleton rounds r ih =>
    obtain ⟨response, hc⟩ := h.last
    have hsplit : client.startedTrace env session input (rounds ++ [r]) =
        client.startedTrace env session input rounds ++ client.roundEvents env session.id rounds.length r := by
      rw [startedTrace, tracedRounds_concat]
      rfl
    rw [hsplit]
    apply (ih h.left).append
    rw [roundEvents, hc.answer]
    dsimp only
    rw [List.cons_append, ← List.singleton_append]
    apply History.Holds.append
    · rw [History.holds_singleton, List.append_nil]
      exact announces_providerStart _ (messages_startedTrace h.left hc.request)
    · apply holds_of_forall
      intro before e he
      apply announces_of_ne
      rcases List.mem_cons.mp he with rfl | he
      · rw [(providerEnd_spec _ _ _).1]
        decide
      · rcases (mem_toolEvents hc.executed he).2 with htype | htype <;> simp [htype]

end

end AIClient

/-! ## The trace of a run -/

structure Audited (session : Session) (input : Message) (result : GenerateResult) : Prop where
  announced : History.Holds (Announces session.messages.length) result.log.events
  transcript : ∃ appended, result.session.messages = session.messages ++ input :: appended ∧
    (tallyOf appended).results = (tallyOfTrace result.log.events).results ∧
    (tallyOf appended).failures = (tallyOfTrace result.log.events).failures ∧
    (∀ out, result.outcome = .ok out → (tallyOf appended).responses = (tallyOfTrace result.log.events).responses) ∧
    (∀ e, result.outcome = .error e →
      (tallyOf appended).responses + 1 = result.log.events.countP fun e => e.type = .providerStart)
  returned : ∀ out, result.outcome = .ok out → ∃ final, result.log.events.getLast? = some final ∧
    final.type = .generationEnd ∧
    final.attributes.find? "model_rounds" = some (.unsigned (.ofNat (tallyOfTrace result.log.events).responses)) ∧
    final.attributes.find? "tool_calls" = some (.unsigned (.ofNat (tallyOfTrace result.log.events).results)) ∧
    out.modelRounds.toNat = (tallyOfTrace result.log.events).responses ∧
    out.toolCalls.toNat = (tallyOfTrace result.log.events).results

namespace AIClient

variable {client : AIClient} {env : RunEnv} {options : GenerateOptions} {session : Session} {input : Message}

/-- A run that threw keeps what its completed rounds appended. -/
theorem messages_of_threw {rounds : List Round} {last : Round} {e : Exc}
    (hout : (client.generate env session input options).outcome = .error e)
    (hlog : (client.generate env session input options).log.rounds = rounds ++ [last]) :
    (client.generate env session input options).session.messages =
      session.messages ++ input :: rounds.flatMap Round.messages := by
  cases generate_ended client env session input options with
  | refused _ _ _ hnil =>
    rw [hnil] at hlog
    simp at hlog
  | threw _ _ _ _ hrounds hmessages =>
    rw [hrounds] at hlog
    obtain ⟨rfl, _⟩ := List.append_inj' hlog rfl
    rw [hmessages, List.append_assoc, List.singleton_append]
  | returned _ _ _ hok =>
    rw [hok] at hout
    cases hout

/-- A run that returned keeps what all its rounds appended, and counts them. -/
theorem messages_of_returned {out : AIResponse}
    (hout : (client.generate env session input options).outcome = .ok out) :
    (client.generate env session input options).session.messages = session.messages ++
        input :: (client.generate env session input options).log.rounds.flatMap Round.messages ∧
      out.modelRounds.toNat = (client.generate env session input options).log.rounds.length ∧
      out.toolCalls.toNat = executedCalls (client.generate env session input options).log.rounds := by
  cases generate_ended client env session input options with
  | refused _ herror =>
    rw [herror] at hout
    cases hout
  | threw _ _ _ herror =>
    rw [herror] at hout
    cases hout
  | returned _ _ _ hok _ hround hcalls _ _ _ hlog hmessages =>
    rw [hok] at hout
    obtain rfl := Except.ok.inj hout
    rw [hlog, hmessages, List.length_append, List.length_singleton, List.append_assoc, List.singleton_append]
    exact ⟨rfl, hround, hcalls⟩

/-- A run that failed in the round after `rounds` leaves their trace and what it got to in the last one. -/
theorem audited_of_failed {rounds : List Round} {last : Round} {e : Exc} {tail : List TraceEvent}
    (h : History.Holds (fun before r => ∃ response, client.Completed env options (opened session input) before r response)
      rounds)
    (hrequest : last.request = client.makeRequest env options (afterRounds (opened session input) rounds))
    (hout : (client.generate env session input options).outcome = .error e)
    (hlog : (client.generate env session input options).log.rounds = rounds ++ [last])
    (hevents : (client.generate env session input options).log.events = client.startedTrace env session input rounds ++
      (client.providerStart env (.ofNat (rounds.length + 1)) last.request :: tail))
    (htail : ∀ e ∈ tail, e.type = .providerEnd ∨ e.type = .error) :
    Audited session input (client.generate env session input options) := by
  -- the failed round announced itself and recorded no tool
  have hnone : ∀ e ∈ tail, e.type ≠ .providerStart ∧ e.type ≠ .toolEnd := by
    intro e he
    rcases htail e he with htype | htype <;> simp [htype]
  have hends : ∀ e ∈ client.providerStart env (.ofNat (rounds.length + 1)) last.request :: tail,
      e.type ≠ .toolEnd := by
    rw [List.forall_mem_cons]
    exact ⟨by simp [providerStart_type], fun e he => (hnone e he).2⟩
  obtain ⟨hresults, hfailures⟩ := tallyOfTrace_append_of_ne (a := client.startedTrace env session input rounds) hends
  refine ⟨?_, ⟨rounds.flatMap Round.messages, messages_of_threw hout hlog, ?_, ?_, ?_, ?_⟩, ?_⟩
  · rw [hevents]
    apply (announced_startedTrace h).append
    rw [← List.singleton_append]
    apply History.Holds.append
    · rw [History.holds_singleton, List.append_nil]
      exact announces_providerStart _ (messages_startedTrace h hrequest)
    · apply holds_of_forall
      intro before e he
      exact announces_of_ne (hnone e he).1
  · rw [hevents, hresults, tally_startedTrace h]
  · rw [hevents, hfailures, tally_startedTrace h]
  · intro out hok
    rw [hok] at hout
    cases hout
  · intro _ _
    have hrest : tail.countP (fun e => e.type = .providerStart) = 0 := by
      rw [List.countP_eq_zero]
      intro e he
      simpa using (hnone e he).1
    rw [hevents, List.countP_append, starts_startedTrace h, List.countP_cons_of_pos (by simp [providerStart_type]), hrest]
    exact congrArg (· + 1) (tally_of_history h).2.1
  · intro out hok
    rw [hok] at hout
    cases hout

/-- **The trace of a run is an audit of it.** -/
theorem generate_audited {leased : Session} (hbegin : client.begin session input options = .ok leased) :
    Audited session input (client.generate env session input options) := by
  have htraces : client.RunTrace env options session input (client.generate env session input options) :=
    generate_traces hbegin
  cases htraces with
  | @unanswered rounds last e hrounds hrequest _ _ hout hlog hevents =>
    apply audited_of_failed hrounds.completed hrequest hout hlog hevents
    intro e' he
    rw [List.mem_singleton.mp he]
    exact .inr (errorEvent_type e)
  | @limited rounds last response text hrounds hrequest _ _ hout hlog hevents =>
    apply audited_of_failed hrounds.completed hrequest hout hlog hevents
    intro e' he
    rcases List.mem_cons.mp he with rfl | he
    · exact .inl (providerEnd_spec _ _ _).1
    · rw [List.mem_singleton.mp he]
      exact .inr (errorEvent_type _)
  | @returned rounds last response out level reason hrounds hlast _ hout hlog hevents =>
    have h := hrounds.completed.concat ⟨response, hlast⟩
    obtain ⟨hmessages, hround, hcalls⟩ := messages_of_returned hout
    rw [hlog] at hmessages hround hcalls
    let final := client.generationEnd env session.id level (.ofNat (rounds.length + 1))
      (.ofNat (executedCalls (rounds ++ [last]))) reason
    have hfinal : final.type = .generationEnd := rfl
    have hsplit : (client.generate env session input options).log.events =
        client.startedTrace env session input (rounds ++ [last]) ++ [final] := hevents
    have htally : tallyOfTrace (client.generate env session input options).log.events =
        tallyOf ((rounds ++ [last]).flatMap Round.messages) := by
      have hlast : tallyOfTrace [final] = ⟨0, 0, 0⟩ := by
        unfold tallyOfTrace
        simp [hfinal]
      rw [hsplit, tallyOfTrace_append, hlast, tally_startedTrace h]
      rfl
    obtain ⟨_, hresponses, hresults, _⟩ := tally_of_history h
    refine ⟨?_, ⟨_, hmessages, by rw [htally], by rw [htally], fun _ _ => by rw [htally], ?_⟩, ?_⟩
    · rw [hsplit]
      apply (announced_startedTrace h).append
      rw [History.holds_singleton]
      apply announces_of_ne
      rw [hfinal]
      decide
    · intro e herror
      rw [herror] at hout
      cases hout
    · intro out' hok
      obtain rfl : out = out' := Except.ok.inj (hout.symm.trans hok)
      rw [htally, hresponses, hresults, hsplit, ← hround]
      exact ⟨final, List.getLast?_concat, hfinal, by rw [hround, List.length_append]; rfl, rfl, rfl, hcalls⟩

def searchingEnv : RunEnv :=
  { runId := "run-1"
    generateOnce := fun n _ =>
      if n = 0 then
        .ok { message := { role := .assistant, toolCalls := [{ id := "call-1", name := "search" },
          { id := "call-2", name := "browse" }], valid := rfl } }
      else .ok { message := .assistantText "nothing found" }
    invoke := fun _ _ _ _ _ => .error .unknown
    schedule := fun _ => [] }

theorem generate_audited_searching :
    Audited { id := "session-1" } (.userText "hello")
      (plainClient.generate searchingEnv { id := "session-1" } (.userText "hello") {}) := by
  have hbegin : plainClient.begin { id := "session-1" } (.userText "hello") {} =
    .ok { id := "session-1", active := true } := rfl
  exact generate_audited hbegin

end AIClient

end NeuralPlus
