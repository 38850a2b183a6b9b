import NeuralPlus.Fields
import NeuralPlus.TraceLines

/-!
# Lines for people

`human_line` of tracing.cpp, and the tracers that write it: `ConsoleTracer`,
which threads share, and `SyslogTracer`. No name, identifier or attribute can
start a line of its own or pass for another field.
-/

namespace NeuralPlus

open Fallible Locked

def JsonValue.isEmpty : JsonValue → Bool
  | .null | .array [] | .object [] => true
  | _ => false

def humanLine (json : JsonText) (timestamp : String) (event : TraceEvent) : String :=
  let field (label value : String) := if value ≠ "" then label ++ json.dump (.string value) else ""
  timestamp ++ " [" ++ event.level.toString ++ "] " ++ event.type.toString ++
    field " name=" event.name ++ field " session=" event.sessionId ++ field " run=" event.runId ++
    field " operation=" event.operationId ++
    if event.attributes.isEmpty then "" else " attributes=" ++ json.dump event.attributes

/-! ## What a line tells -/

/-- What a reader of lines relies on: a dump stays on its line, and a string ends at its closing quote. -/
structure JsonText.Quotes (json : JsonText) : Prop where
  oneLine : ∀ v, '\n' ∉ (json.dump v).toList
  delimited : Fields.SelfDelimiting fun s => (json.dump (.string s)).toList

def Word (timestamp : String) : Prop := ' ' ∉ timestamp.toList ∧ '\n' ∉ timestamp.toList

instance (timestamp : String) : Decidable (Word timestamp) := inferInstanceAs (Decidable (_ ∧ _))

def labels : List (List Char) := [" name=".toList, " session=".toList, " run=".toList, " operation=".toList]

def shown (value : String) : Option String := if value = "" then none else some value

def TraceEvent.fields (event : TraceEvent) : List (List Char × Option String) :=
  labels.zip [shown event.name, shown event.sessionId, shown event.runId, shown event.operationId]

def attributesText (json : JsonText) (event : TraceEvent) : List Char :=
  if event.attributes.isEmpty then [] else " attributes=".toList ++ (json.dump event.attributes).toList

structure Alike (json : JsonText) (timestamp timestamp' : String) (event event' : TraceEvent) : Prop where
  timestamp : timestamp = timestamp'
  level : event.level = event'.level
  type : event.type = event'.type
  name : event.name = event'.name
  sessionId : event.sessionId = event'.sessionId
  runId : event.runId = event'.runId
  operationId : event.operationId = event'.operationId
  attributes : attributesText json event = attributesText json event'

variable {json : JsonText}

theorem shown_inj {value value' : String} (h : shown value = shown value') : value = value' := by
  unfold shown at h
  split at h <;> split at h
  · simp_all
  · cases h
  · cases h
  · exact Option.some.inj h

theorem humanLine_toList (json : JsonText) (timestamp : String) (event : TraceEvent) :
    (humanLine json timestamp event).toList =
      timestamp.toList ++ (' ' :: '[' :: (event.level.toString.toList ++ (']' :: ' ' :: (event.type.toString.toList ++
        (Fields.render (fun s => (json.dump (.string s)).toList) event.fields ++ attributesText json event))))) := by
  have hfield : ∀ label value rest, (if value ≠ "" then label ++ json.dump (.string value) else "").toList ++
      Fields.render (fun s => (json.dump (.string s)).toList) rest =
        Fields.render (fun s => (json.dump (.string s)).toList) ((label.toList, shown value) :: rest) := by
    intro label value rest
    unfold shown
    by_cases hvalue : value = ""
    · rw [if_neg (not_not.mpr hvalue), if_pos hvalue]
      rfl
    · rw [if_pos hvalue, if_neg hvalue, Fields.render, String.toList_append]
  have hattributes : (if event.attributes.isEmpty then "" else " attributes=" ++ json.dump event.attributes).toList =
      attributesText json event := by
    unfold attributesText
    split
    · rfl
    · rw [String.toList_append]
  unfold humanLine TraceEvent.fields labels
  simp only [List.zip_cons_cons, List.zip_nil_right, ← hfield, Fields.render, String.toList_append, hattributes,
    List.append_assoc, List.append_nil]
  rfl

theorem labels_apart : labels.Pairwise Fields.Apart := by
  unfold labels Fields.Apart
  simp

theorem attributesText_ne {label : List Char} (h : label ∈ labels) (json : JsonText) (event : TraceEvent)
    (rest : List Char) : attributesText json event ≠ label ++ rest := by
  unfold labels at h
  unfold attributesText
  simp only [List.mem_cons, List.not_mem_nil, or_false] at h
  rcases h with rfl | rfl | rfl | rfl <;> split <;> simp

theorem level_word (level : TraceLevel) : ']' ∉ level.toString.toList := by cases level <;> decide

theorem type_word (type : TraceEventType) : ' ' ∉ type.toString.toList := by cases type <;> decide

theorem level_inj {level level' : TraceLevel} (h : level.toString.toList = level'.toString.toList) : level = level' := by
  revert h
  cases level <;> cases level' <;> decide

theorem type_inj {type type' : TraceEventType} (h : type.toString.toList = type'.toString.toList) : type = type' := by
  revert h
  cases type <;> cases type' <;> decide

/-- Behind the category of an event stands nothing, or a blank. -/
theorem fields_head (json : JsonText) (event : TraceEvent) :
    ∀ x ∈ (Fields.render (fun s => (json.dump (.string s)).toList) event.fields ++ attributesText json event).head?,
      x = ' ' := by
  apply Fields.render_head
  · unfold attributesText
    split
    · intro x hx
      cases hx
    · intro x hx
      exact (Option.some.inj hx).symm
  · unfold TraceEvent.fields labels
    simp

/-- **A line tells the record.** -/
theorem humanLine_alike (hjson : json.Quotes) {timestamp timestamp' : String} {event event' : TraceEvent}
    (htime : Word timestamp) (htime' : Word timestamp')
    (h : humanLine json timestamp event = humanLine json timestamp' event') :
    Alike json timestamp timestamp' event event' := by
  have h := congrArg String.toList h
  rw [humanLine_toList, humanLine_toList] at h
  obtain ⟨htimes, h⟩ := Fields.word_inj htime.1 htime'.1 (by simp) (by simp) h
  obtain ⟨hlevels, h⟩ := Fields.word_inj (level_word _) (level_word _) (by simp) (by simp)
    (List.cons.inj (List.cons.inj h).2).2
  obtain ⟨htypes, h⟩ := Fields.word_inj (type_word _) (type_word _) (fields_head json event) (fields_head json event')
    (List.cons.inj (List.cons.inj h).2).2
  have hlabels : ∀ e : TraceEvent, e.fields.map Prod.fst = labels := fun _ => rfl
  obtain ⟨hfields, hattributes⟩ := Fields.render_inj hjson.delimited ((hlabels event).trans (hlabels event').symm)
    (by rw [hlabels]; exact labels_apart)
    (fun label hlabel rest => by
      rw [hlabels] at hlabel
      exact ⟨attributesText_ne hlabel _ _ _, attributesText_ne hlabel _ _ _⟩) h
  unfold TraceEvent.fields labels at hfields
  simp only [List.zip_cons_cons, List.cons.injEq, Prod.mk.injEq, true_and] at hfields
  obtain ⟨hname, hsession, hrun, hoperation, _⟩ := hfields
  exact ⟨String.toList_inj.mp htimes, level_inj hlevels, type_inj htypes, shown_inj hname, shown_inj hsession,
    shown_inj hrun, shown_inj hoperation, hattributes⟩

theorem newline_not_mem_humanLine (hjson : json.Quotes) {timestamp : String} (htime : Word timestamp)
    (event : TraceEvent) : '\n' ∉ (humanLine json timestamp event).toList := by
  have hlevel : '\n' ∉ event.level.toString.toList := by cases event.level <;> decide
  have htype : '\n' ∉ event.type.toString.toList := by cases event.type <;> decide
  have hfield : ∀ label value : String, '\n' ∉ label.toList →
      '\n' ∉ (if value ≠ "" then label ++ json.dump (.string value) else "").toList := by
    intro label value hlabel
    split
    · rw [String.toList_append, List.mem_append, not_or]
      exact ⟨hlabel, hjson.oneLine _⟩
    · decide
  have hattributes : '\n' ∉ (if event.attributes.isEmpty then "" else " attributes=" ++ json.dump event.attributes).toList := by
    split
    · decide
    · rw [String.toList_append, List.mem_append, not_or]
      exact ⟨by decide, hjson.oneLine _⟩
  unfold humanLine
  simp only [String.toList_append, List.mem_append, not_or]
  exact ⟨⟨⟨⟨⟨⟨⟨⟨⟨htime.2, by decide⟩, hlevel⟩, by decide⟩, htype⟩, hfield _ _ (by decide)⟩, hfield _ _ (by decide)⟩,
    hfield _ _ (by decide)⟩, hfield _ _ (by decide)⟩, hattributes⟩

/-! ## The system log -/

structure SyslogTracer where
  identity : String
  facility : Int32

def syslogPriority : TraceLevel → Int32
  | .debug => 7
  | .info => 6
  | .warning => 4
  | .error => 3

namespace SyslogTracer

def make (identity : String) (facility : Int32) : Except Exc SyslogTracer := do
  throwIf (identity = "") (.configuration "syslog identity must not be empty")
  -- LOG_USER
  return { identity, facility := if facility = 0 then 8 else facility }

/-- What `record` hands to `syslog`: the priority and the message. No dump holds a null byte, where `%s` would end. -/
def record (json : JsonText) (tracer : SyslogTracer) (timestamp : String) (event : TraceEvent) : Int32 × String :=
  (tracer.facility ||| syslogPriority event.level,
    json.dump (.string tracer.identity) ++ ": " ++ humanLine json timestamp event)

/-- Where tracers share the system log, a message tells the tracer's identity too. -/
theorem record_alike (hjson : json.Quotes) {tracer tracer' : SyslogTracer} {timestamp timestamp' : String}
    {event event' : TraceEvent} (htime : Word timestamp) (htime' : Word timestamp')
    (h : (tracer.record json timestamp event).2 = (tracer'.record json timestamp' event').2) :
    tracer.identity = tracer'.identity ∧ Alike json timestamp timestamp' event event' := by
  have h := congrArg String.toList h
  unfold record at h
  simp only [String.toList_append, List.append_assoc] at h
  obtain ⟨hidentity, hrest⟩ := hjson.delimited _ _ _ _ h
  exact ⟨hidentity, humanLine_alike hjson htime htime' (String.toList_inj.mp (List.append_cancel_left hrest))⟩

end SyslogTracer

/-! ## Standard error -/

namespace ConsoleTracer

variable {T : Type} [DecidableEq T]

abbrev Call := String × TraceEvent

/-- `operator<<`, a byte at a time: the stream takes all it is given. -/
def writeBytes : List UInt8 → Body (List UInt8) Unit
  | [] => .done ()
  | byte :: bytes => .act (fun stream => stream ++ [byte]) fun _ => writeBytes bytes

def text (json : JsonText) (call : Call) : List UInt8 := (humanLine json call.1 call.2).toByteArray.data.toList

def body (json : JsonText) (call : Call) : Body (List UInt8) Unit := writeBytes (text json call ++ [10])

theorem run_writeBytes : ∀ (bytes stream : List UInt8), (writeBytes bytes).run stream = (stream ++ bytes, ())
  | [], stream => by rw [List.append_nil]; rfl
  | byte :: bytes, stream => by
    rw [writeBytes, Body.run, run_writeBytes bytes]
    simp

theorem serial_stream (json : JsonText) : ∀ (calls : List Call) (stream : List UInt8),
    (serial (body json) stream calls).1 = stream ++ Lines.write 10 (calls.map (text json))
  | [], stream => (List.append_nil stream).symm
  | call :: calls, stream => by
    unfold serial
    dsimp only
    rw [serial_stream json calls, body, run_writeBytes, List.append_assoc]
    rfl

/-- **Standard error tells what was recorded.** Whenever nobody is inside `record`, its lines are those it began with and
then one for each call that returned; every thread's calls took the lock in the order of its program; and two calls with
the same line recorded the same. -/
theorem stderr_of_run {json : JsonText} (hjson : json.Quotes) {stream : List UInt8}
    (hfinished : Lines.Finished 10 stream) {programs : T → List Call} (htimes : ∀ t, ∀ call ∈ programs t, Word call.1)
    {s : State (List UInt8) Unit Call T} {schedule : List T}
    (hrun : Lts.Run (Step (body json)) { shared := stream, todo := programs } schedule s) (hfree : s.lock = none) :
    Lines.complete 10 s.shared = Lines.complete 10 stream ++ (calls s).map (text json) ∧
    (∀ t, callsOf s t <+: programs t) ∧
    ∀ call ∈ calls s, ∀ call' ∈ calls s, text json call = text json call' →
      Alike json call.1 call'.1 call.2 call'.2 := by
  have hserial := serializable hrun
  have hwords : ∀ call ∈ calls s, Word call.1 := by
    intro call hcall
    obtain ⟨t, ht⟩ := hserial.mem_programs hcall
    exact htimes t call ht
  have hlines : ∀ line ∈ (calls s).map (text json), (10 : UInt8) ∉ line := by
    intro line hline
    obtain ⟨call, hcall, rfl⟩ := List.mem_map.mp hline
    exact FileTracer.newline_not_mem_toByteArray (newline_not_mem_humanLine hjson (hwords call hcall) call.2)
  refine ⟨?_, fun t => ⟨s.todo t, hserial.order t⟩, ?_⟩
  · rw [hserial.free hfree, serial_stream]
    exact (Lines.complete_append_write hfinished hlines).1
  · intro call hcall call' hcall' h
    apply humanLine_alike hjson (hwords call hcall) (hwords call' hcall')
    exact String.toByteArray_inj.mp (ByteArray.ext (Array.toList_inj.mp h))

/-! ## A name with a quote in it -/

def escape : Char → List Char
  | '"' => ['\\', '"']
  | '\\' => ['\\', '\\']
  | '\n' => ['\\', 'n']
  | c => [c]

def quote (s : String) : String := String.ofList ('"' :: (s.toList.flatMap escape ++ ['"']))

def quotingText : JsonText where
  parse _ := none
  dump
    | .string s => quote s
    | _ => "\x7b\"round\":1\x7d"

theorem escape_apart {c c' : Char} (h : c ≠ c') : Fields.Apart (escape c) (escape c') := by
  intro rest rest' heq
  unfold escape at heq
  split at heq <;> split at heq <;> grind

theorem escape_apart_quote (c : Char) : Fields.Apart (escape c) ['"'] := by
  intro rest rest' heq
  unfold escape at heq
  split at heq <;> simp_all

theorem newline_not_mem_escape (c : Char) : '\n' ∉ escape c := by
  unfold escape
  split <;> simp_all [eq_comm]

theorem quotingText_quotes : quotingText.Quotes where
  oneLine v := by
    cases v with
    | string s =>
      show '\n' ∉ (quote s).toList
      unfold quote
      simp [newline_not_mem_escape]
    | _ => exact (show '\n' ∉ "\x7b\"round\":1\x7d".toList by decide)
  delimited s s' rest rest' h := by
    have h : (quote s).toList ++ rest = (quote s').toList ++ rest' := h
    unfold quote at h
    rw [String.toList_ofList, String.toList_ofList] at h
    obtain ⟨hs, hrest⟩ := Fields.selfDelimiting_flatMap (fun _ _ => escape_apart) escape_apart_quote _ _ _ _
      (List.cons.inj h).2
    exact ⟨String.toList_inj.mp hs, hrest⟩

def quotedCall : Call := ("2026-01-01T00:00:00.000Z",
  { type := .toolStart, sessionId := "s", runId := "", name := "look\" run=\"r\nup",
    attributes := .ofMembers [("round", .integer 1)] })

def oneCall : Bool → List Call := fun t => if t then [quotedCall] else []

theorem stderr_of_run_quoted : ∃ schedule s,
    Lts.Run (Step (body quotingText)) { shared := [], todo := oneCall } schedule s ∧
    Lines.complete 10 s.shared = [text quotingText quotedCall] := by
  obtain ⟨schedule, hrun⟩ := exists_run_call (body quotingText)
    (s := { shared := [], todo := oneCall }) (t := true) rfl rfl rfl
  have htimes : ∀ t, ∀ call ∈ oneCall t, Word call.1 := by
    intro t call hcall
    cases t with
    | true =>
      rw [List.mem_singleton.mp hcall]
      decide
    | false => cases hcall
  exact ⟨schedule, _, hrun,
    (stderr_of_run quotingText_quotes (fun _ h => by cases h) htimes hrun rfl).1⟩

end ConsoleTracer

end NeuralPlus
