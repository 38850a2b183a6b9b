import NeuralPlus.TraceLines
import NeuralPlus.TraceSound

/-!
# Runs that share a trace file

Runs on different threads write their events to one `FileTracer`. Their lines
are mixed, but each names its run: selected by that name, they are the run's
trace again, in its order.
-/

namespace NeuralPlus

open Fallible Locked

/-! ## The run an event names -/

namespace TraceEvent

@[simp] theorem setAttribute_runId (e : TraceEvent) (k : String) (v : JsonValue) :
    (e.setAttribute k v).runId = e.runId := rfl

@[simp] theorem capture_runId (e : TraceEvent) (b : Bool) (p : String) : (e.capture b p).runId = e.runId := by
  cases b <;> rfl

end TraceEvent

namespace AIClient

variable {client : AIClient} {env : RunEnv} {options : GenerateOptions} {session : Session} {input : Message}

theorem runId_toolEvents {sites : Nat → ToolSite} {calls : List ToolCall} {executions : List ToolExecution}
    (hexec : calls.mapIdx (fun i call => client.executeTool (sites i) call) = executions.map .ok) {site : ToolSite}
    (hsites : ∀ i, (sites i).runId = site.runId) {marks : List ExecMark} {e : TraceEvent}
    (he : e ∈ toolEvents site calls executions marks) : e.runId = site.runId := by
  rw [toolEvents_eq] at he
  obtain ⟨mark, _, hmark⟩ := List.mem_filterMap.mp he
  cases mark with
  | started index =>
    obtain ⟨call, _, rfl⟩ := Option.map_eq_some_iff.mp hmark
    rfl
  | ended index =>
    obtain ⟨x, hx, rfl⟩ := Option.map_eq_some_iff.mp hmark
    have hmap := congrArg (·[index]?) hexec
    simp only [List.getElem?_mapIdx, List.getElem?_map, hx, Option.map_some] at hmap
    obtain ⟨call, _, hrun⟩ := Option.map_eq_some_iff.mp hmap
    obtain ⟨_, diagnostic, hend⟩ := executeTool_toolEnd hrun
    rw [hend, ← hsites index]
    simp [toolEnd, makeEvent]

theorem runId_roundEvents {before : List Round} {r : Round} {response : AIResponse}
    (h : client.Completed env options (opened session input) before r response) :
    ∀ e ∈ client.roundEvents env session.id before.length r, e.runId = env.runId := by
  unfold roundEvents
  rw [h.answer]
  dsimp only
  rw [List.forall_mem_append]
  refine ⟨?_, fun e he => runId_toolEvents h.executed (fun _ => rfl) he⟩
  simp [providerStart, providerEnd, event, makeEvent]

theorem runId_tracedRounds {rounds : List Round} (h : History.Holds (fun before r => ∃ response,
    client.Completed env options (opened session input) before r response) rounds) :
    ∀ e ∈ client.tracedRounds env session.id rounds, e.runId = env.runId := by
  induction rounds using List.reverseRecOn with
  | nil => exact fun e he => absurd he List.not_mem_nil
  | append_singleton rounds r ih =>
    obtain ⟨response, hc⟩ := h.last
    rw [tracedRounds_concat, List.forall_mem_append]
    exact ⟨ih h.left, runId_roundEvents hc⟩

/-- **Every event of a run names the run.** -/
theorem runId_generate : ∀ e ∈ (client.generate env session input options).log.events, e.runId = env.runId := by
  have hstart : (client.generationStart env session.id input).runId = env.runId := by
    simp [generationStart, event, makeEvent]
  have herror : ∀ e, (client.errorEvent env session.id e).runId = env.runId := by
    simp [errorEvent, event, makeEvent]
  cases hbegin : client.begin session input options with
  | error e =>
    unfold generate
    rw [hbegin]
    exact fun e he => absurd he List.not_mem_nil
  | ok leased =>
    have htraces : client.RunTrace env options session input (client.generate env session input options) :=
      generate_traces hbegin
    cases htraces with
    | unanswered hrounds _ _ _ _ _ hevents =>
      rw [hevents, List.forall_mem_cons, List.forall_mem_append]
      refine ⟨hstart, runId_tracedRounds hrounds.completed, ?_⟩
      rw [List.forall_mem_cons, List.forall_mem_singleton]
      exact ⟨rfl, herror _⟩
    | limited hrounds _ _ _ _ _ hevents =>
      rw [hevents, List.forall_mem_cons, List.forall_mem_append]
      refine ⟨hstart, runId_tracedRounds hrounds.completed, ?_⟩
      rw [List.forall_mem_cons, List.forall_mem_cons, List.forall_mem_singleton]
      exact ⟨rfl, by simp [providerEnd, event, makeEvent], herror _⟩
    | returned hrounds hlast _ _ _ hevents =>
      rw [hevents, List.forall_mem_cons, List.forall_mem_append, List.forall_mem_singleton]
      refine ⟨hstart, runId_tracedRounds (hrounds.completed.concat ⟨_, hlast⟩), ?_⟩
      simp [generationEnd, event, makeEvent]

end AIClient

structure TracedRun where
  client : AIClient
  env : RunEnv
  session : Session
  input : Message
  options : GenerateOptions

def TracedRun.events (run : TracedRun) : List TraceEvent :=
  (run.client.generate run.env run.session run.input run.options).log.events

theorem TracedRun.runId (run : TracedRun) : ∀ e ∈ run.events, e.runId = run.env.runId := AIClient.runId_generate

/-! ## Reading a line -/

/-- The run a line names, if it is the text of an object that has one. -/
def runOfLine (json : JsonText) (line : List UInt8) : Option String := do
  let value ← json.parse (← String.fromUTF8? ⟨line.toArray⟩)
  match value.find? "run_id" with
  | some (.string runId) => some runId
  | _ => none

/-- The text of the value is one line, and its strings are read back from it. -/
structure JsonText.Retains (json : JsonText) (v : JsonValue) : Prop where
  line : '\n' ∉ (json.dump v).toList
  string : ∀ key s, v.find? key = some (.string s) →
    ∃ w, json.parse (json.dump v) = some w ∧ w.find? key = some (.string s)

theorem find?_runId_eventJson (timestamp : String) (event : TraceEvent) (includePayload : Bool) :
    (eventJson timestamp event includePayload).find? "run_id" = some (.string event.runId) := by
  unfold eventJson
  dsimp only
  split
  · rw [JsonValue.find?_set_ne (by decide), JsonValue.find?_ofMembers]
    rfl
  · rw [JsonValue.find?_ofMembers]
    rfl

theorem fromUTF8?_toByteArray (s : String) : String.fromUTF8? ⟨s.toByteArray.data.toList.toArray⟩ = some s := by
  rw [Array.toArray_toList]
  unfold String.fromUTF8?
  rw [dif_pos s.isValidUTF8]
  rfl

namespace FileTracer

variable {json : JsonText} {tracer : FileTracer}

theorem runOfLine_text {call : RecordCall}
    (h : json.Retains (eventJson call.timestamp call.event tracer.options.includePayloads)) :
    runOfLine json (tracer.text json call) = some call.event.runId := by
  obtain ⟨w, hparse, hfind⟩ := h.string _ _ (find?_runId_eventJson _ _ _)
  unfold runOfLine text
  rw [fromUTF8?_toByteArray]
  simp only [Option.bind_eq_bind, Option.bind_some, hparse, hfind]

/-! ## Selecting a run -/

theorem serial_returns {calls : List RecordCall} (hunlimited : tracer.options.maxBytes = 0)
    (hstores : ∀ call ∈ calls, tracer.Stores json call) : ∀ result ∈ (serial (body json) tracer calls).2, result = .ok () := by
  induction calls generalizing tracer with
  | nil => exact fun _ h => absurd h List.not_mem_nil
  | cons call calls ih =>
    obtain ⟨hcall, hcalls⟩ := List.forall_mem_cons.mp hstores
    have hoptions := record_options json tracer call
    unfold serial
    dsimp only
    rw [run_body, List.forall_mem_cons]
    refine ⟨record_unlimited hunlimited hcall, ?_⟩
    apply ih (by rw [hoptions]; exact hunlimited)
    exact fun c hc => (stores_options hoptions c).mpr (hcalls c hc)

section
variable {T : Type} [DecidableEq T] {runs : T → TracedRun} {programs : T → List RecordCall}

omit [DecidableEq T] in
theorem runOfLine_program (hprograms : ∀ t, (programs t).map RecordCall.event = (runs t).events)
    (hjson : ∀ t, ∀ call ∈ programs t,
      json.Retains (eventJson call.timestamp call.event tracer.options.includePayloads))
    {t : T} {call : RecordCall} (hcall : call ∈ programs t) :
    runOfLine json (tracer.text json call) = some (runs t).env.runId := by
  rw [runOfLine_text (hjson t call hcall)]
  refine congrArg some ((runs t).runId call.event ?_)
  rw [← hprograms t]
  exact List.mem_map_of_mem hcall

omit [DecidableEq T] in
theorem filter_texts (f : RecordCall → List UInt8) (select : List UInt8 → Bool)
    (served : List (T × RecordCall × Except Exc Unit)) :
    ((returned (served.map Prod.snd)).map f).filter select =
      (((served.filter fun entry => select (f entry.2.1)).filter fun entry => entry.2.2.isOk).map
        fun entry => entry.2.1).map f := by
  unfold returned
  simp only [List.filter_map, List.map_map, List.filter_filter, Function.comp_def]
  simp only [Bool.and_comm]

theorem mem_programs_of_returned {s : State FileTracer (Except Exc Unit) RecordCall T}
    (hserial : Serial (body json) tracer programs s) {call : RecordCall}
    (hcall : call ∈ returned (s.served.map Prod.snd)) : ∃ t, call ∈ programs t := by
  obtain ⟨entry, hentry, rfl⟩ := List.mem_map.mp hcall
  apply hserial.mem_programs
  obtain ⟨served, hserved, rfl⟩ := List.mem_map.mp (List.mem_filter.mp hentry).1
  exact List.mem_map_of_mem hserved

/-- **The traces of runs that share a file come apart.** Where `fwrite` takes whole lines, every added line names a run,
and the lines that name one are lines of its events, in their order; without a size limit they are the first ones, and
all of them once the run is over. -/
theorem runs_separate (hfinished : Lines.Finished 10 tracer.file)
    (hruns : Function.Injective fun t => (runs t).env.runId)
    (hprograms : ∀ t, (programs t).map RecordCall.event = (runs t).events)
    (hjson : ∀ t, ∀ call ∈ programs t,
      json.Retains (eventJson call.timestamp call.event tracer.options.includePayloads))
    (hstores : ∀ t, ∀ call ∈ programs t, tracer.Stores json call)
    {s : State FileTracer (Except Exc Unit) RecordCall T} {schedule : List T}
    (hrun : Lts.Run (Step (body json)) { shared := tracer, todo := programs } schedule s) (hfree : s.lock = none) :
    ∃ lines, Lines.complete 10 s.shared.file = Lines.complete 10 tracer.file ++ lines ∧
      (∀ line ∈ lines, ∃ t, runOfLine json line = some (runs t).env.runId) ∧
      ∀ t, let own := lines.filter fun line => runOfLine json line = some (runs t).env.runId
        own.Sublist ((programs t).map (tracer.text json)) ∧
        (tracer.options.maxBytes = 0 → own <+: (programs t).map (tracer.text json) ∧
          (s.todo t = [] → own = (programs t).map (tracer.text json))) := by
  have hserial := serializable hrun
  have hnames : ∀ t, ∀ call ∈ programs t, runOfLine json (tracer.text json call) = some (runs t).env.runId :=
    fun _ _ hcall => runOfLine_program hprograms hjson hcall
  refine ⟨(returned (s.served.map Prod.snd)).map (tracer.text json), ?_, ?_, ?_⟩
  · rw [file_of_run hstores hserial hfree]
    apply (Lines.complete_append_write hfinished ?_).1
    intro line hline
    obtain ⟨call, hcall, rfl⟩ := List.mem_map.mp hline
    obtain ⟨t, ht⟩ := mem_programs_of_returned hserial hcall
    exact newline_not_mem_text (hjson t call ht).line
  · intro line hline
    obtain ⟨call, hcall, rfl⟩ := List.mem_map.mp hline
    obtain ⟨t, ht⟩ := mem_programs_of_returned hserial hcall
    exact ⟨t, hnames t call ht⟩
  · intro t own
    have hown : own = (((s.served.filter fun entry => entry.1 = t).filter fun entry => entry.2.2.isOk).map
        fun entry => entry.2.1).map (tracer.text json) := by
      have hselect : ∀ u, ∀ call ∈ programs u,
          decide (runOfLine json (tracer.text json call) = some (runs t).env.runId) = true ↔ u = t := by
        intro u call hcall
        rw [decide_eq_true_iff, hnames u call hcall, Option.some.injEq]
        exact hruns.eq_iff
      rw [← hserial.filter_served hselect]
      exact filter_texts _ _ _
    have hprogram := hserial.served_program hfree t
    refine ⟨?_, ?_⟩
    · rw [hown, ← hprogram]
      refine List.Sublist.map _ (List.Sublist.trans ?_ (List.sublist_append_left _ _))
      exact List.filter_sublist.map _
    · intro hunlimited
      have hcalls : ∀ call ∈ calls s, tracer.Stores json call := by
        intro call hcall
        obtain ⟨u, hu⟩ := hserial.mem_programs hcall
        exact hstores u call hu
      have hall : own = ((s.served.filter fun entry => entry.1 = t).map fun entry => entry.2.1).map (tracer.text json) := by
        rw [hown, List.filter_eq_self.mpr]
        intro entry hentry
        have hresult := serial_returns hunlimited hcalls entry.2.2 ?_
        · rw [hresult]
          rfl
        · rw [← hserial.results]
          exact List.mem_map_of_mem (List.mem_filter.mp hentry).1
      rw [hall, ← hprogram, List.map_append]
      refine ⟨List.prefix_append _ _, ?_⟩
      intro hdone
      rw [hdone]
      simp

end

/-! ## Two runs that lose their connection -/

def lostRuns (t : Bool) : TracedRun where
  client := .plainClient
  env := {
    runId := if t then "run-1" else "run-2"
    generateOnce := fun _ _ => .error (.transport "connection reset")
    invoke := fun _ _ _ _ _ => .error .unknown
    schedule := fun _ => [] }
  session := { id := if t then "session-1" else "session-2" }
  input := .userText "hello"
  options := {}

def dumpString (s : String) : List Char := '"' :: (s.toList ++ ['"'])

def dumpLeaf : JsonValue → List Char
  | .string s => dumpString s
  | .unsigned n => Nat.toDigits 10 n.toNat
  | _ => ['n', 'u', 'l', 'l']

def dumpMembers (dumpMember : JsonValue → List Char) (members : List (String × JsonValue)) : List Char :=
  '\x7b' :: ([','].intercalate (members.map fun m => dumpString m.1 ++ ':' :: dumpMember m.2) ++ ['\x7d'])

def dumpEvent : JsonValue → List Char
  | .object members => dumpMembers (fun | .object inner => dumpMembers dumpLeaf inner | v => dumpLeaf v) members
  | v => dumpLeaf v

def lostEvents : List JsonValue :=
  ((lostRuns true).events ++ (lostRuns false).events).map fun event => eventJson traceTime event false

def eventText : JsonText where
  parse text := lostEvents.find? fun v => dumpEvent v = text.toList
  dump v := String.ofList (dumpEvent v)

theorem stores_whole (json : JsonText) (tracer : FileTracer) {call : RecordCall} (hflushed : call.flushed = true) :
    tracer.Stores json { call with taken := (tracer.line json call).length } :=
  ⟨Nat.le_refl _, fun _ => hflushed⟩

def storedCall (event : TraceEvent) : RecordCall :=
  let call : RecordCall := { timestamp := traceTime, event, taken := 0, flushed := true }
  { call with taken := (unlimitedTracer.line eventText call).length }

def lostPrograms (t : Bool) : List RecordCall := (lostRuns t).events.map storedCall

theorem retains_lostEvents : ∀ v ∈ lostEvents, eventText.Retains v := by
  have hline : ∀ v ∈ lostEvents, '\n' ∉ dumpEvent v := by decide +kernel
  have hparse : ∀ v ∈ lostEvents, (lostEvents.find? fun w => dumpEvent w = dumpEvent v) = some v := by decide +kernel
  intro v hv
  refine ⟨?_, ?_⟩
  · show '\n' ∉ (String.ofList (dumpEvent v)).toList
    rw [String.toList_ofList]
    exact hline v hv
  · intro key s hfind
    refine ⟨v, ?_, hfind⟩
    show (lostEvents.find? fun w => dumpEvent w = (String.ofList (dumpEvent v)).toList) = some v
    rw [String.toList_ofList]
    exact hparse v hv

theorem runs_separate_lost : ∃ schedule s lines,
    Lts.Run (Step (body eventText)) { shared := unlimitedTracer, todo := lostPrograms } schedule s ∧
    Lines.complete 10 s.shared.file = lines ∧ ∀ t,
      (lines.filter fun line => runOfLine eventText line = some (lostRuns t).env.runId) =
        (lostPrograms t).map (unlimitedTracer.text eventText) := by
  -- the second run writes all its events behind the first event of the first run
  obtain ⟨call, calls, hprogram⟩ : ∃ call calls, lostPrograms true = [call] ++ calls := ⟨_, _, rfl⟩
  obtain ⟨first, s₁, hfirst, hlock₁, hpc₁, htodo₁⟩ := exists_run_calls (body eventText)
    (s := { shared := unlimitedTracer, todo := lostPrograms }) rfl rfl hprogram
  have hothers : s₁.todo false = lostPrograms false ++ [] := by
    rw [htodo₁, List.append_nil]
    rfl
  obtain ⟨second, s₂, hsecond, hlock₂, hpc₂, htodo₂⟩ := exists_run_calls (body eventText) hlock₁ (by rw [hpc₁]) hothers
  have hlast : s₂.todo true = calls ++ [] := by
    rw [htodo₂, htodo₁, List.append_nil]
    rfl
  obtain ⟨third, s, hthird, hlock, _, htodo⟩ := exists_run_calls (body eventText) hlock₂ (by rw [hpc₂, hpc₁]) hlast
  have hrun := (hfirst.append hsecond).append hthird
  have hdone : ∀ t, s.todo t = [] := by
    intro t
    rw [htodo, htodo₂]
    cases t <;> rfl
  have hruns : Function.Injective fun t => (lostRuns t).env.runId := by
    unfold Function.Injective
    decide
  have hprograms : ∀ t, (lostPrograms t).map RecordCall.event = (lostRuns t).events := by
    intro t
    simp [lostPrograms, storedCall, Function.comp_def]
  have hjson : ∀ t, ∀ call ∈ lostPrograms t, eventText.Retains
      (eventJson call.timestamp call.event unlimitedTracer.options.includePayloads) := by
    intro t call hcall
    obtain ⟨event, hevent, rfl⟩ := List.mem_map.mp hcall
    have hmem : event ∈ (lostRuns true).events ++ (lostRuns false).events := by
      cases t
      · exact List.mem_append_right _ hevent
      · exact List.mem_append_left _ hevent
    exact retains_lostEvents _ (List.mem_map_of_mem hmem)
  have hstores : ∀ t, ∀ call ∈ lostPrograms t, unlimitedTracer.Stores eventText call := by
    intro t call hcall
    obtain ⟨event, _, rfl⟩ := List.mem_map.mp hcall
    exact stores_whole eventText unlimitedTracer rfl
  obtain ⟨lines, hlines, _, hown⟩ :=
    runs_separate (fun _ h => by cases h) hruns hprograms hjson hstores hrun hlock
  exact ⟨_, s, lines, hrun, hlines, fun t => ((hown t).2 rfl).2 (hdone t)⟩

end FileTracer

end NeuralPlus
