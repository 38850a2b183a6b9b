import NeuralPlus.Providers
import NeuralPlus.RunSound

/-!
# Transcripts of built-in clients

What a generation appends is the validated input and then blocks of one
response and its answers. A property of transcripts that both keep holds at
every round, and of every session that only generations have changed.
-/

namespace NeuralPlus

open Fallible

namespace AIClient

variable {client : AIClient} {env : RunEnv} {options : GenerateOptions} {P : List Message → Prop}

/-- What a generation appends keeps the property of the transcript. -/
structure Keeps (client : AIClient) (env : RunEnv) (P : List Message → Prop) : Prop where
  input : ∀ {messages : List Message} {input : Message}, P messages → client.validateInput input = .ok () →
    P (messages ++ [input])
  block : ∀ {messages : List Message} {b : Block} {n : Nat} {request : AIRequest}, P messages → b.WellFormed →
    env.generateOnce n request = .ok b.response → P (messages ++ b.messages)

theorem Keeps.afterRounds (hP : client.Keeps env P) {opened : Session} (ho : P opened.messages) {rounds : List Round}
    (h : History.Holds (fun before r => ∃ response, client.Completed env options opened before r response) rounds) :
    P (AIClient.afterRounds opened rounds).messages := by
  induction rounds using List.reverseRecOn with
  | nil => simpa [AIClient.afterRounds] using ho
  | append_singleton rounds r ih =>
    obtain ⟨response, hc⟩ := h.last
    obtain ⟨b, hwf, hb, hm, _⟩ := hc.block
    rw [afterRounds_concat]
    show P ((AIClient.afterRounds opened rounds).messages ++ r.messages)
    rw [hm]
    exact hP.block (ih h.left) hwf (by rw [hb]; exact hc.sent)

theorem Keeps.requests (hP : client.Keeps env P) {opened : Session} (ho : P opened.messages) {rounds : List Round}
    (h : History.Holds (fun before r => ∃ response, client.Completed env options opened before r response) rounds) :
    ∀ r ∈ rounds, P r.request.messages := by
  intro r hr
  obtain ⟨before, after, rfl⟩ := List.append_of_mem hr
  obtain ⟨response, hc⟩ := h before r after rfl
  rw [hc.request]
  exact hP.afterRounds ho h.left

/-- **The invariant rule for transcripts**: what a generation keeps holds after it, and at each of its requests. -/
theorem Keeps.generate (hP : client.Keeps env P) {session : Session} (hs : P session.messages) (input : Message) :
    P (client.generate env session input options).session.messages ∧
    ∀ r ∈ (client.generate env session input options).log.rounds, P r.request.messages := by
  have hopened {leased : Session} (hb : client.begin session input options = .ok leased) :
      P (opened session input).messages := hP.input hs (begin_ok hb).1
  cases generate_ended client env session input options with
  | refused _ _ hsession hrounds =>
    rw [hsession, hrounds]
    exact ⟨hs, fun r hr => absurd hr List.not_mem_nil⟩
  | @threw s response e hb hinv _ _ hrounds hmessages =>
    have ho := hopened hb
    have hhistory := Continued.completed hinv.history
    have hafter : P s.session.messages := by
      rw [hinv.session]
      exact hP.afterRounds ho hhistory
    refine ⟨?_, ?_⟩
    · rw [hmessages]
      rw [hinv.session] at hafter
      exact hafter
    · intro r hr
      rw [hrounds] at hr
      rcases List.mem_append.mp hr with hr | hr
      · exact hP.requests ho hhistory r hr
      · rw [List.mem_singleton.mp hr]
        exact hafter
  | @returned rounds last response out hb hrounds hlast _ _ _ _ _ _ _ hlog hmessages =>
    have ho := hopened hb
    have hhistory := (Continued.completed hrounds).concat ⟨response, hlast⟩
    refine ⟨?_, ?_⟩
    · rw [hmessages]
      exact hP.afterRounds ho hhistory
    · rw [hlog]
      exact hP.requests ho hhistory

end AIClient

/-! ## Runs of a built-in client -/

structure Call where
  runId : String
  send : Nat → HttpRequest → Except Exc HttpResponse
  invoke : Nat → Nat → Nat → ToolContext → JsonValue → Except Exc ToolOutput
  schedule : Nat → List ExecAct
  input : Message
  options : GenerateOptions

namespace BuiltInClient

variable (json : JsonText) (client : BuiltInClient)

def env (call : Call) : RunEnv :=
  { runId := call.runId
    generateOnce := fun n => client.adapter.generateOnce json (call.send n)
    invoke := call.invoke
    schedule := call.schedule }

def generate (session : Session) (call : Call) : GenerateResult :=
  client.base.generate (client.env json call) session call.input call.options

def generateAll (session : Session) (calls : List Call) : Session :=
  calls.foldl (fun session call => (client.generate json session call).session) session

variable {json client} {P : List Message → Prop}

theorem keeps_generateAll (hP : ∀ call, client.base.Keeps (client.env json call) P) :
    ∀ (calls : List Call) {session : Session}, P session.messages → P (client.generateAll json session calls).messages
  | [], _, hs => hs
  | call :: calls, _, hs => keeps_generateAll hP calls ((hP call).generate hs call.input).1

/-- What every generation keeps holds at each request of a session that began empty. -/
theorem keeps_round (hP : ∀ call, client.base.Keeps (client.env json call) P) (hnil : P []) {session : Session}
    (hempty : session.messages = []) (calls : List Call) (call : Call) {r : Round}
    (hr : r ∈ (client.generate json (client.generateAll json session calls) call).log.rounds) :
    P r.request.messages := by
  have hbefore : P (client.generateAll json session calls).messages :=
    keeps_generateAll hP calls (by rwa [hempty])
  exact ((hP call).generate hbefore call.input).2 r hr

end BuiltInClient

theorem exchange_ok {json : JsonText} {send : HttpRequest → Except Exc HttpResponse} {secrets : List String}
    {request : HttpRequest} {parseResponse : HttpResponse → Except Exc AIResponse} {r : AIResponse}
    (h : exchange json send secrets request parseResponse = .ok r) : ∃ response, parseResponse response = .ok r := by
  cases hs : send request with
  | error e =>
    rw [exchange_error hs] at h
    cases h
  | ok response =>
    rw [exchange_sent hs] at h
    cases hp : parseResponse (redactSensitiveResponse json secrets response) with
    | error e => rw [hp] at h; cases h
    | ok r' =>
      rw [hp] at h
      exact ⟨_, by rw [hp, Except.ok.inj h]⟩

theorem Adapter.generateOnce_ok {json : JsonText} {send : HttpRequest → Except Exc HttpResponse} {adapter : Adapter}
    {request : AIRequest} {r : AIResponse} (h : adapter.generateOnce json send request = .ok r) :
    ∃ response, adapter.parseResponse json request response = .ok r := by
  rw [Adapter.generateOnce_eq] at h
  obtain ⟨_, _, hx⟩ := bind_eq_ok.mp h
  exact exchange_ok hx

end NeuralPlus
