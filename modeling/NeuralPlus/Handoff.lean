import NeuralPlus.Origins
import NeuralPlus.Transcript

/-!
# Sessions that several clients continue

A session is handed from client to client. Whoever runs, a generation leaves
what it found in the transcript and puts its own messages behind it, so every
request continues the requests before it.
-/

namespace NeuralPlus

open Fallible

/-- A transcript with more messages behind it, none of them the system's. -/
def Continues (messages messages' : List Message) : Prop :=
  ∃ more, messages' = messages ++ more ∧ ∀ m ∈ more, m.role ≠ .system

theorem Continues.refl (messages : List Message) : Continues messages messages :=
  ⟨[], (List.append_nil _).symm, fun _ hm => absurd hm List.not_mem_nil⟩

theorem Continues.trans {a b c : List Message} (h : Continues a b) (h' : Continues b c) : Continues a c := by
  obtain ⟨more, rfl, hmore⟩ := h
  obtain ⟨more', rfl, hmore'⟩ := h'
  refine ⟨more ++ more', List.append_assoc .., ?_⟩
  intro m hm
  rcases List.mem_append.mp hm with hm | hm
  · exact hmore m hm
  · exact hmore' m hm

/-- Messages that are not the system's do not count for the system instruction. -/
theorem systemInstruction_continues {a b : AIRequest} (h : Continues a.messages b.messages)
    (hsystem : a.systemMessage = b.systemMessage) : systemInstruction a = systemInstruction b := by
  obtain ⟨more, hb, hmore⟩ := h
  unfold systemInstruction
  rw [hb, List.foldl_append, hsystem]
  generalize a.messages.foldl _ (b.systemMessage.getD "") = system
  clear hb
  induction more with
  | nil => rfl
  | cons m more ih =>
    rw [List.foldl_cons, if_pos (.inl (hmore m List.mem_cons_self))]
    exact ih fun m hm => hmore m (List.mem_cons_of_mem _ hm)

namespace AIClient

variable {client : AIClient} {env : RunEnv} {options : GenerateOptions}

def SameRun (a b : AIRequest) : Prop := Continues a.messages b.messages ∧ b = { a with messages := b.messages }

theorem SameRun.trans {a b c : AIRequest} (h : SameRun a b) (h' : SameRun b c) : SameRun a c := by
  refine ⟨h.1.trans h'.1, ?_⟩
  rw [h'.2, h.2]

theorem Completed.continues {opened : Session} {before : List Round} {r : Round} {response : AIResponse}
    (h : client.Completed env options opened before r response) :
    ∀ m ∈ r.messages, m.role ≠ .system := by
  obtain ⟨b, hwf, _, hmessages, _⟩ := h.block
  rw [hmessages, Block.messages, List.forall_mem_cons]
  refine ⟨by rw [hwf.1]; decide, ?_⟩
  intro m hm
  rw [role_of_answers hwf.2 m hm]
  decide

/-- **Step.** The request after a round is the request of the round, continued. -/
theorem Completed.sameRun {opened : Session} {before : List Round} {r : Round} {response : AIResponse}
    (h : client.Completed env options opened before r response) :
    SameRun r.request (client.makeRequest env options (afterRounds opened (before ++ [r]))) := by
  rw [h.request, afterRounds_concat]
  exact ⟨⟨r.messages, rfl, h.continues⟩, rfl⟩

section
variable {opened : Session} {rounds : List Round}
  (h : History.Holds (fun before r => ∃ response, client.Completed env options opened before r response) rounds)

include h

theorem requests_sameRun {last : Round}
    (hlast : last.request = client.makeRequest env options (afterRounds opened rounds)) :
    (rounds ++ [last]).Pairwise fun a b => SameRun a.request b.request := by
  induction rounds using List.reverseRecOn generalizing last with
  | nil => exact List.pairwise_singleton _ last
  | append_singleton rounds r ih =>
    obtain ⟨response, hc⟩ := h.last
    have hbefore := ih h.left hc.request
    have hstep : SameRun r.request last.request := by
      rw [hlast]
      exact hc.sameRun
    rw [List.pairwise_append]
    refine ⟨hbefore, List.pairwise_singleton _ last, ?_⟩
    intro a ha b hb
    rw [List.mem_singleton.mp hb]
    rcases List.mem_append.mp ha with ha | ha
    · exact ((List.pairwise_append.mp hbefore).2.2 a ha r (List.mem_singleton_self r)).trans hstep
    · rwa [List.mem_singleton.mp ha]

theorem afterRounds_continues : Continues opened.messages (afterRounds opened rounds).messages := by
  refine ⟨rounds.flatMap Round.messages, rfl, ?_⟩
  intro m hm
  obtain ⟨r, hr, hm⟩ := List.mem_flatMap.mp hm
  obtain ⟨before, response, hc⟩ := h.exists_before hr
  exact hc.continues m hm

/-- Every round's request lies between the opened session and the last request. -/
theorem request_between {last r : Round} (hlast : last.request = client.makeRequest env options (afterRounds opened rounds))
    (hr : r ∈ rounds ++ [last]) :
    Continues opened.messages r.request.messages ∧ Continues r.request.messages last.request.messages ∧
      r.request.systemMessage = opened.systemMessage := by
  rcases List.mem_append.mp hr with hr | hr
  · have hlater := (List.pairwise_append.mp (requests_sameRun h hlast)).2.2 r hr last (List.mem_singleton_self _)
    refine ⟨?_, hlater.1, ?_⟩
    · obtain ⟨before, after, rfl⟩ := List.append_of_mem hr
      obtain ⟨response, hc⟩ := h before r after rfl
      rw [hc.request]
      exact afterRounds_continues h.left
    · have hsystem := congrArg AIRequest.systemMessage hlater.2
      rw [hlast] at hsystem
      exact hsystem.symm
  · rw [List.mem_singleton.mp hr, hlast]
    exact ⟨afterRounds_continues h, .refl _, rfl⟩

end

/-- What a generation does to the transcript, and what its requests see of it. -/
structure ContinuedBy (session : Session) (result : GenerateResult) : Prop where
  frame : result.session = { session with messages := result.session.messages }
  transcript : Continues session.messages result.session.messages
  begun : ∀ r ∈ result.log.rounds, Continues session.messages r.request.messages ∧
    r.request.systemMessage = session.systemMessage
  rounds : result.log.rounds.Pairwise fun a b => SameRun a.request b.request
  left : ∀ r ∈ result.log.rounds, Continues r.request.messages result.session.messages

theorem ContinuedBy.systemMessage {session : Session} {result : GenerateResult} (h : ContinuedBy session result) :
    result.session.systemMessage = session.systemMessage := by
  rw [h.frame]

theorem generate_session (client : AIClient) (env : RunEnv) (session : Session) (input : Message)
    (options : GenerateOptions) : (client.generate env session input options).session =
      { session with messages := (client.generate env session input options).session.messages } := by
  obtain ⟨e, _, hg⟩ | ⟨_, exit, hb, hf, hg⟩ := generate_cases client env session input options
  · rw [hg]
  · obtain ⟨_, _, hidle, _⟩ := begin_ok hb
    have hexit : exit.session =
        { AIClient.opened session input with messages := exit.session.messages } := by
      cases hf with
      | threw events hs hfail => rw [hs.session]; rfl
      | returned events hs hc _ _ _ =>
        dsimp only
        rw [hs.session]
        rfl
    rw [hg, conclude_messages]
    have hrelease : (client.conclude env exit).session = exit.session.release := by
      unfold conclude
      split <;> rfl
    rw [hrelease, hexit]
    simp only [Session.release, AIClient.opened, hidle]

theorem opened_continues (session : Session) {input : Message} (h : input.role = .user) :
    Continues session.messages (opened session input).messages := by
  refine ⟨[input], rfl, ?_⟩
  intro m hm
  rw [List.mem_singleton.mp hm, h]
  decide

theorem generate_continues (client : AIClient) (env : RunEnv) (session : Session) (input : Message)
    (options : GenerateOptions) : ContinuedBy session (client.generate env session input options) := by
  have hsession := generate_session client env session input options
  cases generate_ended client env session input options with
  | refused _ _ hsame hlog =>
    refine ⟨hsession, ?_, ?_, ?_, ?_⟩
    · rw [hsame]
      exact .refl _
    all_goals rw [hlog]
    · exact fun r hr => absurd hr List.not_mem_nil
    · exact List.Pairwise.nil
    · exact fun r hr => absurd hr List.not_mem_nil
  | @threw s response e hb hs _ _ hlog hmessages =>
    obtain ⟨_, hrole, _, _⟩ := begin_ok hb
    have hrounds := Continued.completed hs.history
    have hlast : (⟨client.requestAt env options s, response, [], false⟩ : Round).request =
        client.makeRequest env options (afterRounds (opened session input) s.log.rounds) :=
      congrArg (client.makeRequest env options) hs.session
    have hfinal : (client.generate env session input options).session.messages =
        (client.requestAt env options s).messages := by
      rw [hmessages]
      exact congrArg AIRequest.messages hlast.symm
    have hopened := opened_continues session hrole
    refine ⟨hsession, ?_, ?_, ?_, ?_⟩
    · rw [hmessages]
      exact hopened.trans (afterRounds_continues hrounds)
    all_goals rw [hlog]
    · intro r hr
      obtain ⟨hbegun, _, hsystem⟩ := request_between hrounds hlast hr
      exact ⟨hopened.trans hbegun, hsystem⟩
    · exact requests_sameRun hrounds hlast
    · intro r hr
      rw [hfinal]
      exact (request_between hrounds hlast hr).2.1
  | @returned rounds last response out hb hrounds hc _ _ _ _ _ _ _ hlog hmessages =>
    obtain ⟨_, hrole, _, _⟩ := begin_ok hb
    have hrounds := Continued.completed hrounds
    have hopened := opened_continues session hrole
    have hfinal : (client.generate env session input options).session.messages =
        (afterRounds (opened session input) (rounds ++ [last])).messages := hmessages
    refine ⟨hsession, ?_, ?_, ?_, ?_⟩
    · rw [hmessages]
      exact hopened.trans (afterRounds_continues (hrounds.concat ⟨response, hc⟩))
    all_goals rw [hlog]
    · intro r hr
      obtain ⟨hbegun, _, hsystem⟩ := request_between hrounds hc.request hr
      exact ⟨hopened.trans hbegun, hsystem⟩
    · exact requests_sameRun hrounds hc.request
    · intro r hr
      rw [hfinal]
      exact (request_between hrounds hc.request hr).2.1.trans hc.sameRun.1

end AIClient

/-! ## Several clients on one session -/

structure ClientCall where
  client : BuiltInClient
  call : Call

namespace ClientCall

variable (json : JsonText)

def run (session : Session) (c : ClientCall) : GenerateResult := c.client.generate json session c.call

def requests (session : Session) : List ClientCall → List AIRequest
  | [] => []
  | c :: calls => (c.run json session).log.rounds.map Round.request ++ requests (c.run json session).session calls

variable {json} {P : List Message → Prop}

theorem keeps_requests {calls : List ClientCall} (hP : ∀ c ∈ calls, c.client.base.Keeps (c.client.env json c.call) P) :
    ∀ {session : Session}, P session.messages → ∀ r ∈ requests json session calls, P r.messages := by
  induction calls with
  | nil => exact fun _ r hr => absurd hr List.not_mem_nil
  | cons c calls ih =>
    intro session hs r hr
    obtain ⟨hafter, hrounds⟩ : P (c.run json session).session.messages ∧
        ∀ r ∈ (c.run json session).log.rounds, P r.request.messages :=
      (hP c List.mem_cons_self).generate hs c.call.input
    rcases List.mem_append.mp hr with hr | hr
    · obtain ⟨round, hround, rfl⟩ := List.mem_map.mp hr
      exact hrounds round hround
    · exact ih (fun c hc => hP c (List.mem_cons_of_mem _ hc)) hafter r hr

theorem requests_after {calls : List ClientCall} : ∀ {session : Session}, ∀ r ∈ requests json session calls,
    Continues session.messages r.messages ∧ r.systemMessage = session.systemMessage := by
  induction calls with
  | nil => exact fun r hr => absurd hr List.not_mem_nil
  | cons c calls ih =>
    intro session r hr
    have hgen := AIClient.generate_continues c.client.base (c.client.env json c.call) session c.call.input c.call.options
    rcases List.mem_append.mp hr with hr | hr
    · obtain ⟨round, hround, rfl⟩ := List.mem_map.mp hr
      exact hgen.begun round hround
    · obtain ⟨hmessages, hsystem⟩ := ih r hr
      refine ⟨hgen.transcript.trans hmessages, hsystem.trans ?_⟩
      exact hgen.systemMessage

/-- **Every request continues the ones before it**, across calls and clients. -/
theorem requests_continue : ∀ (calls : List ClientCall) (session : Session), (requests json session calls).Pairwise
    fun a b => Continues a.messages b.messages ∧ a.systemMessage = b.systemMessage
  | [], _ => List.Pairwise.nil
  | c :: calls, session => by
    have hgen := AIClient.generate_continues c.client.base (c.client.env json c.call) session c.call.input c.call.options
    unfold requests
    rw [List.pairwise_append, List.pairwise_map]
    refine ⟨hgen.rounds.imp ?_, requests_continue calls _, ?_⟩
    · intro a b hab
      exact ⟨hab.1, (congrArg AIRequest.systemMessage hab.2).symm⟩
    · intro a ha b hb
      obtain ⟨round, hround, rfl⟩ := List.mem_map.mp ha
      obtain ⟨hmessages, hsystem⟩ := requests_after b hb
      refine ⟨(hgen.left round hround).trans hmessages, ?_⟩
      rw [hsystem, (hgen.begun round hround).2]
      exact hgen.systemMessage.symm

end ClientCall

/-! ## Items of messages -/

section
variable {itemsOf : Message → Except Exc (List JsonValue)} {E : List (Message × JsonValue) → Prop}

/-- The items of the transcript, if it can be encoded, have the property. -/
def Traced (itemsOf : Message → Except Exc (List JsonValue)) (E : List (Message × JsonValue) → Prop)
    (messages : List Message) : Prop :=
  ∀ items, Origins.traceAll itemsOf messages = .ok items → E items

theorem traced_nil (h : E []) : Traced itemsOf E [] := by
  intro items hitems
  cases hitems
  exact h

theorem role_of_label {m : Message} {own : List JsonValue} : ∀ b ∈ own.map (Prod.mk m), b.1.role = m.role := by
  intro b hb
  obtain ⟨_, _, rfl⟩ := List.mem_map.mp hb
  rfl

/-- **The rule for items, whatever client runs**: users' items may follow, and a response's with those of its answers. -/
theorem BuiltInClient.keeps_traced (json : JsonText) (client : BuiltInClient) (call : Call)
    (hinput : ∀ {items own}, E items → (∀ b ∈ own, b.1.role = .user) → E (items ++ own))
    (hblock : ∀ {request response items own results} {b : AIClient.Block}, E items → b.WellFormed →
      client.adapter.parseResponse json request response = .ok b.response → itemsOf b.response.message = .ok own →
      Origins.traceAll itemsOf b.answers = .ok results → E (items ++ (own.map (Prod.mk b.response.message) ++ results))) :
    client.base.Keeps (client.env json call) (Traced itemsOf E) where
  input := by
    intro messages input hm hvalid items' hitems'
    obtain ⟨items, after, hitems, hafter, rfl⟩ := Origins.traceAll_append.mp hitems'
    obtain ⟨own, _, rfl⟩ := Origins.label_ok (Origins.traceAll_singleton.mp hafter)
    apply hinput (hm items hitems)
    intro b hb
    rw [role_of_label b hb, (AIClient.validateInput_ok hvalid).1]
  block := by
    intro messages b _ request hm hwf hsent items' hitems'
    obtain ⟨response, hparse⟩ := Adapter.generateOnce_ok hsent
    obtain ⟨items, after, hitems, hafter, rfl⟩ := Origins.traceAll_append.mp hitems'
    obtain ⟨labelled, results, hlabelled, hresults, rfl⟩ := Origins.traceAll_cons.mp hafter
    obtain ⟨own, hown, rfl⟩ := Origins.label_ok hlabelled
    exact hblock (hm items hitems) hwf hparse hown hresults

end

end NeuralPlus
