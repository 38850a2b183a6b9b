import NeuralPlus.FileTracer
import NeuralPlus.Lines
import NeuralPlus.Locked

/-!
# A trace file that threads share

The body of `FileTracer::record` as a critical section whose bytes `fwrite`
takes one by one. What it took counts as the file's, though the stdio buffer may
still hold it. Where it takes every line whole, the lines of the file are the
accepted events, in the order in which their calls took the lock.
-/

namespace NeuralPlus

open Fallible Locked

namespace FileTracer

/-! ## The critical section -/

/-- `fwrite`, a byte at a time. -/
def writeBytes (next : Body FileTracer (Except Exc Unit)) : List UInt8 → Body FileTracer (Except Exc Unit)
  | [] => next
  | byte :: bytes => .act (fun tracer => { tracer with file := tracer.file ++ [byte] }) fun _ => writeBytes next bytes

def finish (line : List UInt8) (call : RecordCall) : Body FileTracer (Except Exc Unit) :=
  .act id fun tracer =>
    if min call.taken line.length ≠ line.length then .done (.error (.std "trace file write failed"))
    else if tracer.options.flushEachEvent ∧ call.flushed = false then .done (.error (.std "trace file flush failed"))
    else .act (fun tracer => { tracer with bytesWritten := tracer.bytesWritten + SizeT.ofLength line }) fun _ =>
      .done (.ok ())

def body (json : JsonText) (call : RecordCall) : Body FileTracer (Except Exc Unit) :=
  .act id fun tracer =>
    let line := tracer.line json call
    if tracer.overLimit json call then .done (.error (.std "trace file size limit reached"))
    else writeBytes (finish line call) (line.take (min call.taken line.length))

theorem run_writeBytes (next : Body FileTracer (Except Exc Unit)) : ∀ (bytes : List UInt8) (tracer : FileTracer),
    (writeBytes next bytes).run tracer = next.run { tracer with file := tracer.file ++ bytes }
  | [], tracer => by rw [List.append_nil]; rfl
  | byte :: bytes, tracer => by
    rw [writeBytes, Body.run, run_writeBytes next bytes]
    simp

/-- Undisturbed, the critical section is `record`. -/
theorem run_body (json : JsonText) (call : RecordCall) (tracer : FileTracer) :
    (body json call).run tracer = tracer.record json call := by
  unfold body record
  rw [Body.run]
  dsimp only [id_eq]
  by_cases hover : tracer.overLimit json call = true
  · rw [if_pos hover, if_pos hover]
    rfl
  · rw [if_neg hover, if_neg hover, run_writeBytes]
    unfold finish
    rw [Body.run]
    dsimp only [id_eq]
    split
    · rfl
    · split <;> rfl

/-! ## The calls one at a time -/

variable {json : JsonText} {tracer : FileTracer}

def returned (served : List (RecordCall × Except Exc Unit)) : List RecordCall :=
  (served.filter fun entry => entry.2.isOk).map Prod.fst

def text (json : JsonText) (tracer : FileTracer) (call : RecordCall) : List UInt8 :=
  (json.dump (eventJson call.timestamp call.event tracer.options.includePayloads)).toByteArray.data.toList

theorem line_eq (json : JsonText) (tracer : FileTracer) (call : RecordCall) :
    tracer.line json call = tracer.text json call ++ [10] := by
  unfold line text
  rw [String.toByteArray_append, ByteArray.data_append, Array.toList_append]
  rfl

theorem text_options {tracer tracer' : FileTracer} (h : tracer'.options = tracer.options) (call : RecordCall) :
    tracer'.text json call = tracer.text json call := by
  unfold text
  rw [h]

theorem stores_options {tracer' : FileTracer} (h : tracer'.options = tracer.options) (call : RecordCall) :
    tracer'.Stores json call ↔ tracer.Stores json call := by
  unfold Stores line
  rw [h]

/-- **Step.** Where the file takes whole lines, a call adds its line or throws and adds nothing. -/
theorem record_file {call : RecordCall} (h : tracer.Stores json call) :
    (tracer.record json call).1.file =
      tracer.file ++ Lines.write 10 ((returned [(call, (tracer.record json call).2)]).map (tracer.text json)) := by
  obtain ⟨_, hr⟩ | ⟨_, _, hr⟩ | ⟨_, hstores, _⟩ := record_cases json tracer call
  · rw [hr]
    exact (List.append_nil _).symm
  · rw [hr, line_eq]
    simp [returned, Lines.write, Except.isOk, Except.toBool]
  · exact absurd h hstores

theorem serial_file {calls : List RecordCall} (h : ∀ call ∈ calls, tracer.Stores json call) :
    (serial (body json) tracer calls).1.file = tracer.file ++
      Lines.write 10 ((returned (calls.zip (serial (body json) tracer calls).2)).map (tracer.text json)) := by
  induction calls generalizing tracer with
  | nil => exact (List.append_nil _).symm
  | cons call calls ih =>
    rw [List.forall_mem_cons] at h
    obtain ⟨hcall, hcalls⟩ := h
    have hoptions := record_options json tracer call
    have hstores : ∀ c ∈ calls, (tracer.record json call).1.Stores json c :=
      fun c hc => (stores_options hoptions c).mpr (hcalls c hc)
    have hrest := ih hstores
    rw [funext (text_options hoptions), record_file hcall] at hrest
    unfold serial
    rw [run_body]
    dsimp only
    rw [hrest, List.append_assoc]
    congr 1
    rw [List.zip_cons_cons]
    unfold returned Lines.write
    rw [← List.flatMap_append, ← List.map_append, ← List.map_append, ← List.filter_append]
    rfl

/-! ## Newlines -/

theorem newline_mem_utf8EncodeChar {c : Char} (h : (10 : UInt8) ∈ String.utf8EncodeChar c) : c = '\n' := by
  have hbyte : ∀ n : Nat, (10 : UInt8) = UInt8.ofNat n → n % 256 = 10 := by
    intro n hn
    have := congrArg UInt8.toNat hn
    simpa using this.symm
  unfold String.utf8EncodeChar at h
  dsimp only at h
  -- every byte of a longer encoding is at least 128
  split at h
  · rw [List.mem_singleton] at h
    have hn := hbyte _ h
    have : '\n'.val.toNat = 10 := rfl
    apply Char.ext
    apply UInt32.toNat_inj.mp
    omega
  · split at h
    · simp only [List.mem_cons, List.not_mem_nil, or_false] at h
      rcases h with h | h <;> have := hbyte _ h <;> omega
    · split at h
      · simp only [List.mem_cons, List.not_mem_nil, or_false] at h
        rcases h with h | h | h <;> have := hbyte _ h <;> omega
      · simp only [List.mem_cons, List.not_mem_nil, or_false] at h
        rcases h with h | h | h | h <;> have := hbyte _ h <;> omega

theorem newline_not_mem_toByteArray {s : String} (h : '\n' ∉ s.toList) : (10 : UInt8) ∉ s.toByteArray.data.toList := by
  intro hmem
  rw [← String.utf8Encode_toList, List.utf8Encode, List.data_toByteArray] at hmem
  obtain ⟨c, hc, hbyte⟩ := List.mem_flatMap.mp (by simpa using hmem)
  rw [newline_mem_utf8EncodeChar hbyte] at hc
  exact h hc

theorem newline_not_mem_text {call : RecordCall}
    (h : '\n' ∉ (json.dump (eventJson call.timestamp call.event tracer.options.includePayloads)).toList) :
    (10 : UInt8) ∉ tracer.text json call :=
  newline_not_mem_toByteArray h

/-! ## Any schedule -/

section
variable {T : Type} [DecidableEq T] {programs : T → List RecordCall}

theorem file_of_run (hstores : ∀ t, ∀ call ∈ programs t, tracer.Stores json call)
    {s : State FileTracer (Except Exc Unit) RecordCall T} (hserial : Serial (body json) tracer programs s)
    (hfree : s.lock = none) : s.shared.file =
      tracer.file ++ Lines.write 10 ((returned (s.served.map Prod.snd)).map (tracer.text json)) := by
  have hzip : (calls s).zip (results s) = s.served.map Prod.snd := by
    unfold calls results
    rw [List.zip_map']
  have hfile := serial_file fun call hcall => by
    obtain ⟨t, ht⟩ := hserial.mem_programs hcall
    exact hstores t call ht
  rwa [← hserial.free hfree, ← hserial.results, hzip] at hfile

/-- **Events of threads that share a file are never mixed.** Where `fwrite` takes whole lines, then whenever nobody is
inside `record` the complete lines are those the file began with and the events whose calls returned, in the order in
which these took the lock. -/
theorem lines_of_run {json : JsonText} (hdump : ∀ v, '\n' ∉ (json.dump v).toList) {tracer : FileTracer}
    (hfinished : Lines.Finished 10 tracer.file) (hstores : ∀ t, ∀ call ∈ programs t, tracer.Stores json call)
    {s : State FileTracer (Except Exc Unit) RecordCall T} {schedule : List T}
    (hrun : Lts.Run (Step (body json)) { shared := tracer, todo := programs } schedule s) (hfree : s.lock = none) :
    Lines.complete 10 s.shared.file = Lines.complete 10 tracer.file ++
      (returned (s.served.map Prod.snd)).map (tracer.text json) ∧
    Lines.Finished 10 s.shared.file ∧ ∀ t, callsOf s t <+: programs t := by
  have hserial := serializable hrun
  have hlines : ∀ line ∈ (returned (s.served.map Prod.snd)).map (tracer.text json), (10 : UInt8) ∉ line := by
    intro line hline
    obtain ⟨call, _, rfl⟩ := List.mem_map.mp hline
    exact newline_not_mem_text (hdump _)
  obtain ⟨hcomplete, hend⟩ := Lines.complete_append_write hfinished hlines
  rw [file_of_run hstores hserial hfree]
  exact ⟨hcomplete, hend, fun t => ⟨s.todo t, hserial.order t⟩⟩

end

/-! ## Two threads -/

def wholeCall : RecordCall := { timestamp := traceTime, event := traceEvent, taken := 1000, flushed := true }

def unlimitedTracer : FileTracer := { options := {}, bytesWritten := 0, file := [] }

def twoThreads : Bool → List RecordCall := fun _ => [wholeCall]

theorem record_unlimited {tracer : FileTracer} {call : RecordCall} (hmax : tracer.options.maxBytes = 0)
    (h : tracer.Stores json call) : (tracer.record json call).2 = .ok () := by
  obtain ⟨hover, _⟩ | ⟨_, _, hr⟩ | ⟨_, hstores, _⟩ := record_cases json tracer call
  · simp [overLimit, hmax] at hover
  · rw [hr]
  · exact absurd h hstores

theorem lines_of_run_twoThreads : ∃ schedule s,
    Lts.Run (Step (body traceText)) { shared := unlimitedTracer, todo := twoThreads } schedule s ∧
    Lines.complete 10 s.shared.file = [unlimitedTracer.text traceText wholeCall, unlimitedTracer.text traceText wholeCall] := by
  obtain ⟨first, hfirst⟩ := exists_run_call (body traceText)
    (s := { shared := unlimitedTracer, todo := twoThreads }) (t := true) rfl rfl rfl
  obtain ⟨second, hsecond⟩ := exists_run_call (body traceText)
    (s := { shared := ((body traceText wholeCall).run unlimitedTracer).1,
            todo := Function.update twoThreads true [],
            served := [(true, wholeCall, ((body traceText wholeCall).run unlimitedTracer).2)] }) (t := false) rfl rfl rfl
  refine ⟨first ++ second, _, hfirst.append hsecond, ?_⟩
  have hstores : ∀ t, ∀ call ∈ twoThreads t, unlimitedTracer.Stores traceText call := by
    intro t call hcall
    rw [List.mem_singleton.mp hcall]
    exact ⟨by decide +kernel, by decide⟩
  have hstored := hstores true wholeCall (List.mem_singleton_self _)
  have hfirstOk := record_unlimited rfl hstored
  have hsecondOk := record_unlimited ((congrArg FileTracerOptions.maxBytes (record_options _ _ _)).trans rfl)
    ((stores_options (record_options traceText unlimitedTracer wholeCall) wholeCall).mpr hstored)
  have hdump : ∀ v, '\n' ∉ (traceText.dump v).toList := fun _ => show '\n' ∉ traceLine.toList by decide +kernel
  have hlines := (lines_of_run hdump (fun _ h => by cases h) hstores (hfirst.append hsecond) rfl).1
  rw [hlines]
  simp only [run_body, hfirstOk, hsecondOk]
  rfl

end FileTracer

end NeuralPlus
