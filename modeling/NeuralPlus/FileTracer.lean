import NeuralPlus.History
import NeuralPlus.Trace
import NeuralPlus.TransportSound

/-!
# The JSON Lines tracer

`FileTracer` of tracing.cpp, on POSIX. A record is one line, refused where it
would take the file over `max_bytes`; `bytes_written` stands for the size of the
file, and is advanced only where the whole line was written and flushed. What
the file system answers is a parameter, and so is the text of a time.
-/

namespace NeuralPlus

open Fallible

/-! ## Lines -/

def TraceLevel.toString : TraceLevel → String
  | .debug => "debug"
  | .info => "info"
  | .warning => "warning"
  | .error => "error"

def TraceEventType.toString : TraceEventType → String
  | .generationStart => "generation_start"
  | .generationEnd => "generation_end"
  | .providerStart => "provider_start"
  | .providerEnd => "provider_end"
  | .toolStart => "tool_start"
  | .toolEnd => "tool_end"
  | .error => "error"

def eventJson (timestamp : String) (event : TraceEvent) (includePayload : Bool) : JsonValue :=
  let value := JsonValue.ofMembers
    [("timestamp", .string timestamp),
     ("level", .string event.level.toString),
     ("type", .string event.type.toString),
     ("session_id", .string event.sessionId),
     ("run_id", .string event.runId),
     ("operation_id", .string event.operationId),
     ("name", .string event.name),
     ("attributes", event.attributes)]
  if includePayload ∧ event.payload ≠ "" then value.set "payload" (.string event.payload) else value

/-! ## Tracers -/

structure FileTracerOptions where
  append : Bool := true
  flushEachEvent : Bool := false
  includePayloads : Bool := false
  maxBytes : SizeT := 0

structure TraceDestination where
  opens : Bool := true
  stats : Bool := true
  streams : Bool := true
  existing : List UInt8 := []

/-- A tracer and its file. A byte is in the file once `fwrite` has taken it. -/
structure FileTracer where
  options : FileTracerOptions
  bytesWritten : SizeT
  file : List UInt8

/-- One call: the event with the text of its time, how many bytes `fwrite` takes and whether `fflush` succeeds. -/
structure RecordCall where
  timestamp : String
  event : TraceEvent
  taken : Nat
  flushed : Bool

namespace FileTracer

def make (path : String) (options : FileTracerOptions) (destination : TraceDestination) : Except Exc FileTracer := do
  throwIf (path = "") (.configuration "trace file path must not be empty")
  throwIf (destination.opens = false) (.configuration "trace file could not be opened")
  let file := if options.append then destination.existing else []
  throwIf (destination.stats = false) (.configuration "trace file metadata could not be read")
  throwIf (options.append ∧ file.length > SizeT.max.toNat) (.configuration "trace file is too large")
  throwIf (destination.streams = false) (.configuration "trace file stream could not be opened")
  return { options, bytesWritten := if options.append then SizeT.ofLength file else 0, file }

def line (json : JsonText) (tracer : FileTracer) (call : RecordCall) : List UInt8 :=
  (json.dump (eventJson call.timestamp call.event tracer.options.includePayloads) ++ "\n").toByteArray.data.toList

def overLimit (json : JsonText) (tracer : FileTracer) (call : RecordCall) : Bool :=
  tracer.options.maxBytes ≠ 0 &&
    (tracer.line json call).length > (remaining tracer.options.maxBytes tracer.bytesWritten).toNat

def record (json : JsonText) (tracer : FileTracer) (call : RecordCall) : FileTracer × Except Exc Unit :=
  let line := tracer.line json call
  if tracer.overLimit json call then (tracer, .error (.std "trace file size limit reached"))
  else
    let written := min call.taken line.length
    let tracer := { tracer with file := tracer.file ++ line.take written }
    if written ≠ line.length then (tracer, .error (.std "trace file write failed"))
    else if tracer.options.flushEachEvent ∧ call.flushed = false then (tracer, .error (.std "trace file flush failed"))
    else ({ tracer with bytesWritten := tracer.bytesWritten + SizeT.ofLength line }, .ok ())

def recordAll (json : JsonText) (tracer : FileTracer) (calls : List RecordCall) : FileTracer :=
  calls.foldl (fun tracer call => (tracer.record json call).1) tracer

/-! ## One record -/

variable {json : JsonText} {tracer : FileTracer} {call : RecordCall}

/-- The file takes the whole line, and it is flushed where the options ask for it. -/
def Stores (json : JsonText) (tracer : FileTracer) (call : RecordCall) : Prop :=
  (tracer.line json call).length ≤ call.taken ∧ (tracer.options.flushEachEvent = true → call.flushed = true)

/-- A call that keeps count: its line is refused, or none of it is taken, or it is stored. -/
def Settles (json : JsonText) (tracer : FileTracer) (call : RecordCall) : Prop :=
  tracer.overLimit json call = true ∨ call.taken = 0 ∨ tracer.Stores json call

/-- `bytes_written` is the size of the file, which is within the limit. -/
structure Counted (tracer : FileTracer) : Prop where
  count : tracer.bytesWritten.toNat = tracer.file.length
  within : tracer.file.length ≤ tracer.options.maxBytes.toNat

theorem line_pos (json : JsonText) (tracer : FileTracer) (call : RecordCall) : 0 < (tracer.line json call).length := by
  unfold line
  rw [String.toByteArray_append, ByteArray.data_append, Array.toList_append, List.length_append]
  have : "\n".toByteArray.data.toList.length = 1 := rfl
  omega

theorem record_cases (json : JsonText) (tracer : FileTracer) (call : RecordCall) :
    (tracer.overLimit json call = true ∧
      tracer.record json call = (tracer, .error (.std "trace file size limit reached"))) ∨
    (tracer.overLimit json call = false ∧ tracer.Stores json call ∧
      tracer.record json call =
        ({ tracer with
            file := tracer.file ++ tracer.line json call
            bytesWritten := tracer.bytesWritten + SizeT.ofLength (tracer.line json call) }, .ok ())) ∨
    (tracer.overLimit json call = false ∧ ¬ tracer.Stores json call ∧
      ∃ e, tracer.record json call =
        ({ tracer with file := tracer.file ++ (tracer.line json call).take call.taken }, .error e)) := by
  unfold record
  by_cases hover : tracer.overLimit json call = true
  · rw [if_pos hover]
    exact .inl ⟨hover, rfl⟩
  · rw [if_neg hover]
    rw [Bool.not_eq_true] at hover
    by_cases htaken : (tracer.line json call).length ≤ call.taken
    · rw [Nat.min_eq_right htaken, if_neg (by simp), List.take_length]
      by_cases hflush : tracer.options.flushEachEvent = true ∧ call.flushed = false
      · rw [if_pos hflush]
        refine .inr (.inr ⟨hover, fun hs => ?_, _, by rw [List.take_of_length_le htaken]⟩)
        rw [hs.2 hflush.1] at hflush
        cases hflush.2
      · rw [if_neg hflush]
        refine .inr (.inl ⟨hover, ⟨htaken, fun hf => ?_⟩, rfl⟩)
        exact Bool.eq_true_of_not_eq_false fun hb => hflush ⟨hf, hb⟩
    · rw [Nat.not_le] at htaken
      rw [Nat.min_eq_left (Nat.le_of_lt htaken), if_pos (Nat.ne_of_lt htaken)]
      exact .inr (.inr ⟨hover, fun hs => absurd hs.1 (Nat.not_le.mpr htaken), _, rfl⟩)

theorem record_options (json : JsonText) (tracer : FileTracer) (call : RecordCall) :
    (tracer.record json call).1.options = tracer.options := by
  obtain ⟨_, h⟩ | ⟨_, _, h⟩ | ⟨_, _, _, h⟩ := record_cases json tracer call
  all_goals rw [h]

theorem recordAll_options (calls : List RecordCall) : (tracer.recordAll json calls).options = tracer.options := by
  induction calls generalizing tracer with
  | nil => rfl
  | cons call calls ih => exact ih.trans (record_options json tracer call)

/-- A line that passes the guard fits into what the counter leaves of the limit. -/
theorem line_length_le (hlimit : tracer.options.maxBytes ≠ 0) (hover : tracer.overLimit json call = false) :
    (tracer.line json call).length ≤ tracer.options.maxBytes.toNat - tracer.bytesWritten.toNat := by
  simp only [overLimit, hlimit, ne_eq, not_false_eq_true, decide_true, Bool.true_and, gt_iff_lt,
    decide_eq_false_iff_not, Nat.not_lt] at hover
  rwa [remaining_toNat] at hover

theorem toNat_add_line (hlimit : tracer.options.maxBytes ≠ 0) (hover : tracer.overLimit json call = false)
    (hcount : tracer.bytesWritten.toNat ≤ tracer.options.maxBytes.toNat) :
    (tracer.bytesWritten + SizeT.ofLength (tracer.line json call)).toNat =
      tracer.bytesWritten.toNat + (tracer.line json call).length :=
  SizeT.add_ofLength_toNat hcount (line_length_le hlimit hover)

/-- **Step.** A counted file stays counted exactly if the call settles. -/
theorem Counted.record_iff (h : tracer.Counted) (hlimit : tracer.options.maxBytes ≠ 0) :
    (tracer.record json call).1.Counted ↔ tracer.Settles json call := by
  have hcount := h.count
  have hwithin := h.within
  unfold Settles
  obtain ⟨hover, hr⟩ | ⟨hover, hstores, hr⟩ | ⟨hover, hstores, _, hr⟩ := record_cases json tracer call
  · rw [hr]
    exact ⟨fun _ => .inl hover, fun _ => h⟩
  · rw [hr]
    refine ⟨fun _ => .inr (.inr hstores), fun _ => ?_⟩
    have hfits := line_length_le hlimit hover
    have hlength : (tracer.file ++ tracer.line json call).length = tracer.file.length + (tracer.line json call).length :=
      List.length_append
    constructor
    · exact (toNat_add_line hlimit hover (hcount ▸ hwithin)).trans (by rw [hlength, hcount])
    · show (tracer.file ++ tracer.line json call).length ≤ tracer.options.maxBytes.toNat
      omega
  · rw [hr]
    constructor
    · intro hc
      have htake : tracer.bytesWritten.toNat = (tracer.file ++ (tracer.line json call).take call.taken).length := hc.count
      have hpos := line_pos json tracer call
      rw [List.length_append, List.length_take] at htake
      exact .inr (.inl (by omega))
    · rintro (hover' | hzero | hstores')
      · rw [hover] at hover'
        cases hover'
      · rw [hzero, List.take_zero, List.append_nil]
        exact h
      · exact absurd hstores' hstores

theorem record_bytesWritten_le (json : JsonText) (call : RecordCall) (hlimit : tracer.options.maxBytes ≠ 0)
    (hfile : tracer.bytesWritten.toNat ≤ tracer.file.length)
    (hmax : tracer.bytesWritten.toNat ≤ tracer.options.maxBytes.toNat) :
    (tracer.record json call).1.bytesWritten.toNat ≤ (tracer.record json call).1.file.length ∧
    (tracer.record json call).1.bytesWritten.toNat ≤ tracer.options.maxBytes.toNat := by
  obtain ⟨hover, hr⟩ | ⟨hover, hstores, hr⟩ | ⟨hover, hstores, _, hr⟩ := record_cases json tracer call
  · rw [hr]
    exact ⟨hfile, hmax⟩
  · have hfits := line_length_le hlimit hover
    rw [hr, toNat_add_line hlimit hover hmax, List.length_append]
    omega
  · rw [hr, List.length_append]
    exact ⟨Nat.le_add_right_of_le hfile, hmax⟩

/-! ## Runs -/

theorem recordAll_bytesWritten_le (hlimit : tracer.options.maxBytes ≠ 0)
    (hfile : tracer.bytesWritten.toNat ≤ tracer.file.length)
    (hmax : tracer.bytesWritten.toNat ≤ tracer.options.maxBytes.toNat) (calls : List RecordCall) :
    (tracer.recordAll json calls).bytesWritten.toNat ≤ (tracer.recordAll json calls).file.length ∧
    (tracer.recordAll json calls).bytesWritten.toNat ≤ tracer.options.maxBytes.toNat := by
  induction calls generalizing tracer with
  | nil => exact ⟨hfile, hmax⟩
  | cons call calls ih =>
    have hstep := record_bytesWritten_le json call hlimit hfile hmax
    rw [← record_options json tracer call] at hlimit hstep ⊢
    exact ih hlimit hstep.1 hstep.2

theorem make_count {path : String} {options : FileTracerOptions} {destination : TraceDestination}
    (h : make path options destination = .ok tracer) :
    tracer.options = options ∧ tracer.bytesWritten.toNat = tracer.file.length := by
  unfold make at h
  simp only [bind_eq_ok, throwIf_eq_ok] at h
  obtain ⟨_, _, _, _, _, _, _, hlarge, _, _, h⟩ := h
  cases h
  refine ⟨rfl, ?_⟩
  by_cases happend : options.append = true
  · simp only [happend, if_true, true_and, gt_iff_lt, Nat.not_lt] at hlarge ⊢
    exact SizeT.ofLength_toNat hlarge
  · simp [happend]

theorem counted_iff_settles (json : JsonText) {path : String} {options : FileTracerOptions}
    {destination : TraceDestination} {tracer : FileTracer} (hmake : make path options destination = .ok tracer)
    (hlimit : options.maxBytes ≠ 0) (hsize : tracer.file.length ≤ options.maxBytes.toNat) (calls : List RecordCall) :
    (∀ before, before <+: calls → (tracer.recordAll json before).Counted) ↔
      History.Holds (fun before call => (tracer.recordAll json before).Settles json call) calls := by
  obtain ⟨rfl, hcount⟩ := make_count hmake
  -- the options are part of the invariant: the step lemma needs a limit
  have hall := History.always_iff_holds (f := fun (t : FileTracer) call => (t.record json call).1)
    (I := fun t => t.options = tracer.options ∧ t.Counted) (C := fun t call => t.Settles json call)
    (fun t call h => by
      rw [record_options]
      exact (and_iff_right h.1).trans (h.2.record_iff (h.1 ▸ hlimit)))
    ⟨rfl, hcount, hsize⟩ calls
  refine Iff.trans ?_ hall
  apply forall_congr'
  intro before
  apply imp_congr_right
  intro _
  exact (and_iff_right (recordAll_options before)).symm

/-! ## A partial write -/

def traceTime : String := "2026-01-01T00:00:00.000Z"

def traceEvent : TraceEvent := makeEvent .generationStart "s" "r" "gpt"

def traceLine : String :=
  "\x7b\"attributes\":\x7b\x7d,\"level\":\"info\",\"name\":\"gpt\",\"operation_id\":\"\"" ++
    ",\"run_id\":\"r\",\"session_id\":\"s\",\"timestamp\":\"2026-01-01T00:00:00.000Z\",\"type\":\"generation_start\"\x7d"

def traceText : JsonText where
  parse text := if text = traceLine then some (eventJson traceTime traceEvent false) else none
  dump _ := traceLine

def partialCalls : List RecordCall :=
  [{ timestamp := traceTime, event := traceEvent, taken := 100, flushed := true },
   { timestamp := traceTime, event := traceEvent, taken := 1000, flushed := true }]

def emptyTracer : FileTracer := { options := { maxBytes := 200 }, bytesWritten := 0, file := [] }

theorem counted_iff_settles_partial :
    (∀ before, before <+: partialCalls → (emptyTracer.recordAll traceText before).Counted) ↔
      History.Holds (fun before call => (emptyTracer.recordAll traceText before).Settles traceText call) partialCalls :=
  counted_iff_settles traceText
    (show make "trace.jsonl" { maxBytes := 200 } {} = .ok emptyTracer from rfl) (by decide) (by decide) partialCalls

theorem partial_write_uncounted :
    make "trace.jsonl" { maxBytes := 200 } {} = .ok emptyTracer ∧ emptyTracer.Counted ∧
    (emptyTracer.recordAll traceText partialCalls).file.length = 259 ∧
    (emptyTracer.recordAll traceText partialCalls).bytesWritten.toNat = 159 ∧
    ¬ (emptyTracer.recordAll traceText partialCalls).Counted := by
  have hfile : (emptyTracer.recordAll traceText partialCalls).file.length = 259 := by decide +kernel
  have hcount : (emptyTracer.recordAll traceText partialCalls).bytesWritten.toNat = 159 := by decide +kernel
  refine ⟨rfl, ⟨rfl, by decide⟩, hfile, hcount, fun h => ?_⟩
  have := h.count
  omega

end FileTracer

end NeuralPlus
