import NeuralPlus.GenerateSound

/-!
# What holds of every generation

The transcript a generation leaves behind, the limits it keeps, which tool
calls reach an implementation, and when a paused response stays unanswered.
-/

namespace NeuralPlus

open Fallible

namespace AIClient

variable {client : AIClient} {env : RunEnv} {options : GenerateOptions}

/-! ## The transcript -/

def Answers (call : ToolCall) (m : Message) : Prop :=
  m.role = .tool ∧ m.toolCallId = call.id ∧ m.toolName = call.name ∧ m.providerMetadata = call.providerMetadata ∧
    m.contents ≠ []

structure Block where
  response : AIResponse
  answers : List Message

def Block.messages (b : Block) : List Message := b.response.message :: b.answers

def Block.WellFormed (b : Block) : Prop :=
  b.response.message.role = .assistant ∧ List.Forall₂ Answers b.response.message.toolCalls b.answers

theorem executed_mem {site : Nat → ToolSite} {calls : List ToolCall} {xs : List ToolExecution}
    (h : calls.mapIdx (fun i call => client.executeTool (site i) call) = xs.map .ok) {x : ToolExecution} (hx : x ∈ xs) :
    ∃ i call, calls[i]? = some call ∧ client.executeTool (site i) call = .ok x := by
  have hm : (Except.ok x : Except Exc ToolExecution) ∈ xs.map .ok := List.mem_map_of_mem hx
  rw [← h, List.mem_iff_getElem?] at hm
  obtain ⟨i, hi⟩ := hm
  rw [List.getElem?_mapIdx, Option.map_eq_some_iff] at hi
  obtain ⟨call, hcall, hexec⟩ := hi
  exact ⟨i, call, hcall, hexec⟩

theorem answers_of_executed {site : Nat → ToolSite} {calls : List ToolCall} {xs : List ToolExecution}
    (h : calls.mapIdx (fun i call => client.executeTool (site i) call) = xs.map .ok) (hn : Named calls) :
    List.Forall₂ Answers calls (answers xs) := by
  have hcall := calls_of_executed h
  have hcontents : ∀ x ∈ xs, x.output.contents ≠ [] := by
    intro x hx
    obtain ⟨i, _, _, hexec⟩ := executed_mem h hx
    exact (executeTool_contents (site i) hexec).2
  have hrec := (List.forall₂_and_left _ _).mpr ⟨hcontents, answers_records (by rwa [hcall])⟩
  rw [← hcall, List.forall₂_map_left_iff]
  exact hrec.imp fun x m ⟨hc, _, hr⟩ => ⟨hr.role, hr.id, hr.name, hr.metadata, by rwa [hr.contents]⟩

theorem role_of_answers {calls : List ToolCall} {answers : List Message} (h : List.Forall₂ Answers calls answers) :
    ∀ m ∈ answers, m.role = .tool := by
  induction h with
  | nil => exact fun m hm => absurd hm List.not_mem_nil
  | cons hm _ ih => exact List.forall_mem_cons.mpr ⟨hm.1, ih⟩

theorem Completed.block {opened : Session} {before : List Round} {r : Round} {response : AIResponse}
    (h : client.Completed env options opened before r response) :
    ∃ b : Block, b.WellFormed ∧ b.response = response ∧ r.messages = b.messages ∧
      b.answers.length = r.executions.length := by
  have hans := answers_of_executed h.executed h.named
  refine ⟨⟨response, NeuralPlus.answers r.executions⟩, ⟨h.role, hans⟩, rfl, h.messages, ?_⟩
  exact hans.length_eq.symm.trans h.length.symm

theorem blocks_of_history {opened : Session} {rounds : List Round}
    (h : History.Holds (fun before r => ∃ response, client.Completed env options opened before r response) rounds) :
    ∃ blocks : List Block, blocks.length = rounds.length ∧
      rounds.flatMap Round.messages = blocks.flatMap Block.messages ∧
      (blocks.flatMap Block.answers).length = executedCalls rounds ∧
      ∀ i b, blocks[i]? = some b → b.WellFormed ∧
        ∃ r, rounds[i]? = some r ∧ env.generateOnce i r.request = .ok b.response := by
  induction rounds using List.reverseRecOn with
  | nil => exact ⟨[], rfl, rfl, rfl, by simp⟩
  | append_singleton rounds r ih =>
    obtain ⟨response, hc⟩ := h.last
    obtain ⟨blocks, hlen, hmsgs, hans, hall⟩ := ih h.left
    obtain ⟨b, hwf, hb, hm, hx⟩ := hc.block
    refine ⟨blocks ++ [b], by simp [hlen], ?_, ?_, ?_⟩
    · rw [List.flatMap_append, List.flatMap_append, hmsgs]
      simp [hm]
    · rw [List.flatMap_append, List.length_append, hans, executedCalls_concat]
      simp [hx]
    · intro i b' hi
      rw [List.getElem?_append] at hi ⊢
      split at hi
      · rename_i hlt
        obtain ⟨hwf', r', hr', hsent⟩ := hall i b' hi
        exact ⟨hwf', r', by rw [if_pos (by omega)]; exact hr', hsent⟩
      · rename_i hge
        obtain ⟨hz, rfl⟩ : i - blocks.length = 0 ∧ b = b' := by
          cases hsub : i - blocks.length with
          | zero => rw [hsub] at hi; exact ⟨rfl, by simpa using hi⟩
          | succ k => rw [hsub] at hi; simp at hi
        have hi' : i = rounds.length := by omega
        subst hi'
        exact ⟨hwf, r, by simp, by rw [hb]; exact hc.sent⟩

theorem Continued.completed {opened : Session} {rounds : List Round}
    (h : client.Continued env options opened rounds) :
    History.Holds (fun before r => ∃ response, client.Completed env options opened before r response) rounds :=
  History.Holds.mono h fun _ _ _ ⟨response, hc, _⟩ => ⟨response, hc⟩

/-- **The transcript of a generation is made of blocks**, whether it returns or throws. -/
theorem generate_transcript {session leased : Session} {input : Message}
    (hbegin : client.begin session input options = .ok leased) :
    ∃ blocks : List Block,
      (client.generate env session input options).session.messages =
        session.messages ++ [input] ++ blocks.flatMap Block.messages ∧
      (∀ i b, blocks[i]? = some b → b.WellFormed ∧
        ∃ r, (client.generate env session input options).log.rounds[i]? = some r ∧
          env.generateOnce i r.request = .ok b.response) ∧
      ∀ response, (client.generate env session input options).outcome = .ok response →
        blocks.length = response.modelRounds.toNat ∧
        (blocks.flatMap Block.answers).length = response.toolCalls.toNat := by
  cases generate_ended client env session input options with
  | refused he => rw [hbegin] at he; cases he
  | threw _ hs _ hout hrounds hmessages =>
    obtain ⟨blocks, hlen, hmsgs, _, hall⟩ := blocks_of_history (Continued.completed hs.history)
    refine ⟨blocks, by rw [hmessages, hmsgs], ?_, fun _ h => by rw [hout] at h; cases h⟩
    intro i b hi
    obtain ⟨hwf, r, hr, hsent⟩ := hall i b hi
    refine ⟨hwf, r, ?_, hsent⟩
    rw [hrounds, List.getElem?_append_left (List.getElem?_eq_some_iff.mp hr).1, hr]
  | returned _ hrounds hlast hout _ hround hcalls _ _ _ hlog hmessages =>
    obtain ⟨blocks, hlen, hmsgs, hans, hall⟩ := blocks_of_history
      ((Continued.completed hrounds).concat ⟨_, hlast⟩)
    refine ⟨blocks, by rw [hmessages, hmsgs], fun i b hi => by rw [hlog]; exact hall i b hi, ?_⟩
    intro response h
    rw [hout] at h
    cases h
    rw [hlen, hans, List.length_append, List.length_singleton]
    exact ⟨hround.symm, hcalls.symm⟩

def plainClient : AIClient :=
  { model := { id := "model" }, options := {}, registry := .empty, rounds_ne := by decide, parallel_ne := by decide,
    calls_ne := by decide }

def lookupSpec : ToolSpec :=
  { name := "lookup", description := "Looks a word up.", inputSchema := .ofMembers [("type", .string "object")] }

theorem lookupSpec_valid : validateToolSpec lookupSpec = .ok () := by decide +kernel

def lookupRegistry : Registry :=
  { tools := [("lookup", ⟨0, lookupSpec⟩)]
    specs := [lookupSpec]
    keyed := by simp [lookupSpec]
    inStep := rfl
    valid := by simp [lookupSpec_valid]
    distinct := List.nodup_singleton _ }

def lookupClient : AIClient := { plainClient with registry := lookupRegistry }

def lookupCall (id : String) : ToolCall := { id, name := "lookup" }

def lookupEnv : RunEnv :=
  { runId := "run-1"
    generateOnce := fun n _ =>
      if n = 0 then
        .ok { message := { role := .assistant, toolCalls := [lookupCall "call-1", lookupCall "call-2"], valid := rfl } }
      else .ok { message := .assistantText "found" }
    invoke := fun _ index _ _ _ => if index = 0 then .ok (.text "a word") else .error .unknown
    schedule := fun _ => [] }

theorem generate_transcript_lookup : ∃ blocks : List Block,
    (lookupClient.generate lookupEnv { id := "session-1" } (.userText "hello") {}).session.messages =
      [] ++ [.userText "hello"] ++ blocks.flatMap Block.messages ∧
    blocks.length = 2 ∧ (blocks.flatMap Block.answers).length = 2 := by
  have hbegin : lookupClient.begin { id := "session-1" } (.userText "hello") {} =
    .ok { id := "session-1", active := true } := rfl
  have hcounts : (lookupClient.generate lookupEnv { id := "session-1" } (.userText "hello") {}).outcome.map
      (fun response => (response.modelRounds, response.toolCalls)) = .ok (2, 2) := by decide +kernel
  obtain ⟨blocks, hmessages, _, hreturned⟩ := @generate_transcript lookupClient lookupEnv {} _ _ _ hbegin
  refine ⟨blocks, hmessages, ?_⟩
  cases hout : (lookupClient.generate lookupEnv { id := "session-1" } (.userText "hello") {}).outcome with
  | error e =>
    rw [hout] at hcounts
    cases hcounts
  | ok response =>
    rw [hout] at hcounts
    obtain ⟨hrounds, hcalls⟩ := Prod.mk.inj (Except.ok.inj hcounts)
    obtain ⟨hlength, hanswers⟩ := hreturned response hout
    rw [hlength, hanswers, hrounds, hcalls]
    exact ⟨rfl, rfl⟩

/-! ## Continuations -/

/-- `m`, appended by the run after `before`, is the message of a response that asked to be continued. -/
def Paused (client : AIClient) (env : RunEnv) (options : GenerateOptions) (session : Session) (input : Message)
    (before : List Message) (m : Message) : Prop :=
  ∃ response, env.generateOnce (before.countP fun b => b.role = .assistant)
      (client.makeRequest env options { session with messages := session.messages ++ [input] ++ before }) =
        .ok response ∧
    response.message = m ∧ response.requiresContinuation = true

/-- Every assistant message of the run that asked to be continued has a later one after it, in the transcript `left`. -/
def ContinuationsResolved (client : AIClient) (env : RunEnv) (options : GenerateOptions) (session : Session)
    (input : Message) (left : List Message) : Prop :=
  ∀ before m after, left = session.messages ++ [input] ++ (before ++ m :: after) → m.role = .assistant →
    client.Paused env options session input before m → ∃ m' ∈ after, m'.role = .assistant

/-- The provider asks to be continued and the next round fails: the provider throws, or its answer
is turned down, or that answer needs a round more than permitted. -/
def FailsAfterPause (client : AIClient) (env : RunEnv) (options : GenerateOptions) (session : Session)
    (input : Message) : Prop :=
  (∃ leased, client.begin session input options = .ok leased) ∧
  ∃ s next response answer e, Loop.Reaches (client.loopBody env options) (firstRound client env session input) s ∧
    env.generateOnce s.log.rounds.length (client.requestAt env options s) = .ok response ∧
    response.requiresContinuation = true ∧ client.loopBody env options s = .again next ∧
    client.Fails env options next answer e

theorem Completed.headed {opened : Session} {before : List Round} {r : Round} {response : AIResponse}
    (h : client.Completed env options opened before r response) :
    History.Headed (fun m => m.role = .assistant) r.messages := by
  refine ⟨response.message, NeuralPlus.answers r.executions, h.messages, h.role, fun m hm => ?_⟩
  show m.role ≠ .assistant
  rw [role_of_answers (answers_of_executed h.executed h.named) m hm]
  decide

theorem LoopInv.headed {opened : Session} {s : LoopState} (hs : client.LoopInv env options opened s) :
    ∀ r ∈ s.log.rounds, History.Headed (fun m => m.role = .assistant) r.messages := by
  intro r hr
  obtain ⟨_, _, hc, _⟩ := hs.history.exists_before hr
  exact hc.headed

theorem LoopInv.requestAt {session : Session} {input : Message} {s : LoopState}
    (hs : client.LoopInv env options (opened session input) s) : client.requestAt env options s =
      client.makeRequest env options
        { session with messages := session.messages ++ [input] ++ s.log.rounds.flatMap Round.messages } := by
  rw [AIClient.requestAt, hs.session]
  rfl

theorem Fails.not_completes {s : LoopState} {answer : Option AIResponse} {e : Exc} {response : AIResponse}
    {usage : TokenUsage} {executions : List ToolExecution} (h : client.Fails env options s answer e) :
    ¬ client.Completes env options s response usage executions := by
  intro hc
  have hsent := hc.sent
  cases h with
  | providerThrew he =>
    rw [he] at hsent
    cases hsent
  | rejected hok he =>
    rw [hok] at hsent
    cases hsent
    rw [(acceptResponse_ok_iff client).mpr hc.accepted] at he
    cases he
  | lastRound hok _ hneeds hlast =>
    rw [hok] at hsent
    cases hsent
    exact hc.roundsLeft hneeds hlast

/-- A round that fails is the last one. -/
theorem Fails.leaves {s : LoopState} {answer : Option AIResponse} {e : Exc} (h : client.Fails env options s answer e) :
    ∃ exit, client.loopBody env options s = .leave exit := by
  have hspec := loopBody_spec client env options s
  generalize client.loopBody env options s = pass at hspec
  cases hspec with
  | again _ hc => exact absurd hc h.not_completes
  | fellThrough | failed | answered | stopped => exact ⟨_, rfl⟩

theorem completed_of_again {opened : Session} {s next : LoopState} (hs : client.LoopInv env options opened s)
    (hagain : client.loopBody env options s = .again next) :
    ∃ r response, next.log.rounds = s.log.rounds ++ [r] ∧
      client.Completed env options opened s.log.rounds r response ∧
      env.generateOnce s.log.rounds.length (client.requestAt env options s) = .ok response := by
  have hspec := loopBody_spec client env options s
  rw [hagain] at hspec
  cases hspec with
  | again _ hc => exact ⟨_, _, rfl, hs.completed hc, hc.sent⟩

section
variable {session : Session} {input : Message} {s next : LoopState} {response : AIResponse}
  (hs : client.LoopInv env options (opened session input) s) (hagain : client.loopBody env options s = .again next)

include hs hagain

/-- Where the next round fails, the message that asked to be continued is the last one of the model. -/
theorem unresolved_of_again (hsent : env.generateOnce s.log.rounds.length (client.requestAt env options s) = .ok response)
    (hpause : response.requiresContinuation = true) :
    ¬ client.ContinuationsResolved env options session input
      (session.messages ++ [input] ++ next.log.rounds.flatMap Round.messages) := by
  intro hres
  obtain ⟨r, response', hrounds, hc, hsent'⟩ := completed_of_again hs hagain
  obtain rfl : response = response' := Except.ok.inj (hsent.symm.trans hsent')
  have hleft : next.log.rounds.flatMap Round.messages =
      s.log.rounds.flatMap Round.messages ++ response.message :: NeuralPlus.answers r.executions := by
    rw [hrounds, List.flatMap_append, List.flatMap_singleton, hc.messages]
  have hpaused : client.Paused env options session input (s.log.rounds.flatMap Round.messages) response.message := by
    refine ⟨response, ?_, rfl, hpause⟩
    rw [History.countP_flatMap_headed hs.headed, ← hs.requestAt]
    exact hsent
  obtain ⟨m, hm, hrole⟩ := hres _ _ _ (by rw [hleft]) hc.role hpaused
  rw [role_of_answers (answers_of_executed hc.executed hc.named) m hm] at hrole
  cases hrole

/-- The model's last message is the one the provider answered the round before with. -/
theorem paused_of_last {rounds : List Round} {r : Round} {m : Message} (hrounds : next.log.rounds = rounds ++ [r])
    (hpaused : client.Paused env options session input (rounds.flatMap Round.messages) m) :
    ∃ response, env.generateOnce s.log.rounds.length (client.requestAt env options s) = .ok response ∧
      response.requiresContinuation = true := by
  obtain ⟨response, hanswer, _, hpause⟩ := hpaused
  obtain ⟨r', _, hrounds', _⟩ := completed_of_again hs hagain
  obtain ⟨rfl, _⟩ := List.append_inj' (hrounds.symm.trans hrounds') rfl
  rw [History.countP_flatMap_headed hs.headed, ← hs.requestAt] at hanswer
  exact ⟨response, hanswer, hpause⟩

end

/-- A run that throws leaves its loop where a round fails, with the messages of the rounds before. -/
theorem generate_threw {session : Session} {input : Message} {e : Exc}
    (hthrow : (client.generate env session input options).outcome = .error e) :
    (∃ e, client.begin session input options = .error e ∧
      (client.generate env session input options).session.messages = session.messages) ∨
    ∃ leased t answer e', client.begin session input options = .ok leased ∧
      Loop.Reaches (client.loopBody env options) (firstRound client env session input) t ∧
      client.Fails env options t answer e' ∧
      (client.generate env session input options).session.messages =
        session.messages ++ [input] ++ t.log.rounds.flatMap Round.messages := by
  rcases generate_reaches client env session input options with ⟨e', he, hg⟩ | ⟨t, exit, hb, ht, hleave, hg⟩
  · exact .inl ⟨e', he, by rw [hg]⟩
  have hs := Reached.loopInv rfl ht
  have hspec := loopBody_spec client env options t
  rw [hleave] at hspec
  cases hspec with
  | fellThrough hout => exact absurd hs.round_le hout
  | failed _ _ hfail =>
    refine .inr ⟨_, t, _, _, hb, ht, hfail, ?_⟩
    rw [hg, conclude_messages]
    simp only [hs.session, afterRounds, opened]
  | answered | stopped =>
    rw [hg] at hthrow
    cases hthrow

/-- **A message that asked to be continued stays unresolved exactly when the round after it fails.** -/
theorem continuations_resolved_iff {session : Session} {input : Message} {e : Exc}
    (hthrow : (client.generate env session input options).outcome = .error e) :
    client.ContinuationsResolved env options session input
        (client.generate env session input options).session.messages ↔
      ¬ client.FailsAfterPause env options session input := by
  obtain ⟨e', he, hleft⟩ | ⟨leased, t, answer, e', hb, ht, hfail, hleft⟩ := generate_threw hthrow
  · rw [hleft]
    constructor
    · intro _ ⟨⟨_, hok⟩, _⟩
      rw [he] at hok
      cases hok
    · intro _ before m after h
      have := congrArg List.length h
      simp only [List.length_append, List.length_cons] at this
      omega
  rw [hleft]
  obtain ⟨exit, hleave⟩ := hfail.leaves
  constructor
  · rintro hres ⟨_, s, next, response, _, _, hreach, hsent, hpause, hagain, hfail'⟩
    obtain ⟨exit', hleave'⟩ := hfail'.leaves
    obtain rfl : next = t := Loop.Reaches.leaves_unique (hreach.again hagain) hleave' ht hleave
    exact unresolved_of_again (Reached.loopInv rfl hreach) hagain hsent hpause hres
  · intro hno before m after h hrole hpaused
    have hheaded := LoopInv.headed (Reached.loopInv rfl ht)
    obtain ⟨l, r, rest, tail, hrounds, rfl, _, hafter⟩ :=
      History.flatMap_split hheaded hrole (List.append_cancel_left h)
    cases rest with
    | cons next rest =>
      -- the next round begins with a message of the model
      obtain ⟨head, tail', hnext, hhead, _⟩ := hheaded next (by rw [hrounds]; simp)
      exact ⟨head, by rw [hafter, List.flatMap_cons, hnext]; simp, hhead⟩
    | nil =>
      -- the round that fails is the one after `m`
      cases ht with
      | start => simp [firstRound] at hrounds
      | @again s _ hreach hagain =>
        obtain ⟨response, hsent, hpause⟩ := paused_of_last (Reached.loopInv rfl hreach) hagain hrounds hpaused
        exact absurd ⟨⟨leased, hb⟩, s, t, response, answer, e', hreach, hsent, hpause, hagain, hfail⟩ hno

def pausingEnv : RunEnv :=
  { runId := "run-1"
    generateOnce := fun n _ =>
      if n = 0 then .ok { message := .assistantText "partial", requiresContinuation := true }
      else .error (.transport "connection reset")
    invoke := fun _ _ _ _ _ => .error .unknown
    schedule := fun _ => [] }

/-- The run fails while the model's paused message waits to be continued: the message stays, last in the transcript. -/
theorem continuation_left_unresolved :
    (plainClient.generate pausingEnv { id := "session-1" } (.userText "hello") {}).outcome =
      .error (.transport "connection reset") ∧
    (plainClient.generate pausingEnv { id := "session-1" } (.userText "hello") {}).session.messages =
      [.userText "hello", .assistantText "partial"] ∧
    ¬ plainClient.ContinuationsResolved pausingEnv {} { id := "session-1" } (.userText "hello")
      (plainClient.generate pausingEnv { id := "session-1" } (.userText "hello") {}).session.messages := by
  refine ⟨rfl, rfl, ?_⟩
  intro h
  obtain ⟨m, hm, _⟩ := h [] (.assistantText "partial") [] rfl rfl ⟨_, rfl, rfl, rfl⟩
  cases hm

theorem continuations_resolved_iff_paused :
    plainClient.FailsAfterPause pausingEnv {} { id := "session-1" } (.userText "hello") ∧
    ¬ plainClient.ContinuationsResolved pausingEnv {} { id := "session-1" } (.userText "hello")
      (plainClient.generate pausingEnv { id := "session-1" } (.userText "hello") {}).session.messages := by
  have hfails : plainClient.FailsAfterPause pausingEnv {} { id := "session-1" } (.userText "hello") :=
    ⟨⟨_, rfl⟩, _, _, { message := .assistantText "partial", requiresContinuation := true }, none, _, .start, rfl, rfl,
      rfl, .providerThrew rfl⟩
  refine ⟨hfails, fun h => ?_⟩
  exact (continuations_resolved_iff (e := .transport "connection reset") rfl).mp h hfails

/-! ## Limits -/

/-- A response the client must turn down: too many calls for the budget, a call without id or
name, two calls with one id, or calls in the last permitted round. -/
def Rejects (client : AIClient) (executed round : Nat) (response : AIResponse) : Prop :=
  response.message.toolCalls.length > client.options.maxToolCallsPerGeneration.toNat - executed ∨
    (∃ c ∈ response.message.toolCalls, c.id = "" ∨ c.name = "") ∨
    ¬ (response.message.toolCalls.map ToolCall.id).Nodup ∨
    (response.message.toolCalls ≠ [] ∧ round = client.options.maxModelRounds.toNat)

theorem Completed.not_rejects {opened : Session} {before : List Round} {r : Round} {response : AIResponse}
    (h : client.Completed env options opened before r response)
    (hround : NeedsAnother response → before.length + 1 ≠ client.options.maxModelRounds.toNat) :
    ¬ client.Rejects (executedCalls before) (before.length + 1) response := by
  have hw := h.within
  rintro (hlen | ⟨c, hc, hbad⟩ | hdup | ⟨hcalls, hlast⟩)
  · omega
  · obtain ⟨hi, hn⟩ := h.named c hc
    rcases hbad with hbad | hbad
    · exact hi hbad
    · exact hn hbad
  · exact hdup h.distinct
  · exact hround (.inl hcalls) hlast

theorem rejected_is_last {opened : Session} {rounds before after : List Round} {last r : Round} {response : AIResponse}
    (hrounds : client.Continued env options opened rounds) (hlog : rounds ++ [last] = before ++ r :: after)
    (hr : r.response = some response)
    (hlen : rounds.length + 1 ≤ client.options.maxModelRounds.toNat)
    (hrej : client.Rejects (executedCalls before) (before.length + 1) response) :
    after = [] ∧ before = rounds ∧ r = last := by
  obtain ⟨hbefore, hlast, hafter⟩ | ⟨after', _, hsplit⟩ := History.concat_split hlog
  · exact ⟨hafter, hbefore, hlast⟩
  · obtain ⟨response', hc, _⟩ := hrounds before r after' hsplit
    have : response' = response := Option.some.inj (hc.answer.symm.trans hr)
    subst this
    have : before.length < rounds.length := by rw [hsplit]; simp
    exact absurd hrej (hc.not_rejects fun _ => by omega)

theorem generate_rounds_le (client : AIClient) (env : RunEnv) (session : Session) (input : Message)
    (options : GenerateOptions) :
    (client.generate env session input options).log.rounds.length ≤ client.options.maxModelRounds.toNat := by
  cases generate_ended client env session input options with
  | refused _ _ _ hlog => rw [hlog]; exact Nat.zero_le _
  | threw _ hs _ _ hlog =>
    have := UInt64.le_iff_toNat_le.mp hs.round_le
    rw [hlog, List.length_append, List.length_singleton, ← hs.round]
    exact this
  | returned _ _ _ _ _ _ _ _ hle _ hlog => rw [hlog, List.length_append]; exact hle

theorem generate_executedCalls_le (client : AIClient) (env : RunEnv) (session : Session) (input : Message)
    (options : GenerateOptions) :
    executedCalls (client.generate env session input options).log.rounds ≤
      client.options.maxToolCallsPerGeneration.toNat := by
  cases generate_ended client env session input options with
  | refused _ _ _ hlog => rw [hlog]; exact Nat.zero_le _
  | threw _ hs _ _ hlog =>
    have := UInt64.le_iff_toNat_le.mp hs.toolCalls_le
    rw [hlog, executedCalls_concat, ← hs.toolCalls]
    exact this
  | returned _ _ hlast _ _ _ _ _ _ _ hlog =>
    have := hlast.within
    rw [hlog, executedCalls_concat, hlast.length]
    exact this

/-- A rejected response is the last of its run, which ends in an exception. -/
theorem generate_rejected {session : Session} {input : Message} {before after : List Round} {r : Round}
    {response : AIResponse}
    (hsplit : (client.generate env session input options).log.rounds = before ++ r :: after)
    (hr : r.response = some response) (hrej : client.Rejects (executedCalls before) (before.length + 1) response) :
    (∃ e, (client.generate env session input options).outcome = .error e) ∧ after = [] ∧ r.executions = [] ∧
    (client.generate env session input options).session.messages =
      session.messages ++ [input] ++ before.flatMap Round.messages := by
  cases generate_ended client env session input options with
  | refused _ _ _ hlog => rw [hlog] at hsplit; simp at hsplit
  | @threw s _ e _ hs _ hout hlog hmessages =>
    rw [hlog] at hsplit
    have hle := UInt64.le_iff_toNat_le.mp hs.round_le
    obtain ⟨rfl, rfl, rfl⟩ := rejected_is_last hs.history hsplit hr (by rwa [← hs.round]) hrej
    exact ⟨⟨e, hout⟩, rfl, rfl, hmessages⟩
  | returned _ hrounds hlast _ _ _ _ hleft hle _ hlog _ =>
    rw [hlog] at hsplit
    obtain ⟨rfl, rfl, rfl⟩ := rejected_is_last hrounds hsplit hr hle hrej
    have : response = _ := Option.some.inj (hr.symm.trans hlast.answer)
    subst this
    exact absurd hrej (hlast.not_rejects hleft)

/-- **The limits of a generation.** The requests and the executed calls stay within the limits, a
response that must be turned down ends the run in an exception with none of its calls executed
and none of its messages appended, no counter wraps, and the loop never runs out of rounds. -/
theorem generate_bounded (client : AIClient) (env : RunEnv) (session : Session) (input : Message)
    (options : GenerateOptions) :
    (client.generate env session input options).log.rounds.length ≤ client.options.maxModelRounds.toNat ∧
    executedCalls (client.generate env session input options).log.rounds ≤
      client.options.maxToolCallsPerGeneration.toNat ∧
    (∀ before r after response,
      (client.generate env session input options).log.rounds = before ++ r :: after → r.response = some response →
      client.Rejects (executedCalls before) (before.length + 1) response →
      (∃ e, (client.generate env session input options).outcome = .error e) ∧ after = [] ∧ r.executions = [] ∧
      (client.generate env session input options).session.messages =
        session.messages ++ [input] ++ before.flatMap Round.messages) ∧
    (∀ opened log s, log.rounds = [] → Loop.Reaches (client.loopBody env options) { session := opened, log } s →
      s.round.toNat = s.log.rounds.length + 1 ∧ s.round ≤ client.options.maxModelRounds ∧
      s.cumulativeToolCalls.toNat = executedCalls s.log.rounds ∧
      (client.remainingCalls s.cumulativeToolCalls).toNat =
        client.options.maxToolCallsPerGeneration.toNat - executedCalls s.log.rounds ∧
      (∀ t, client.loopBody env options s = .again t → t.round.toNat = s.round.toNat + 1) ∧
      ∀ exit, client.loopBody env options s = .leave exit → exit.outcome ≠ .fellThrough) := by
  refine ⟨generate_rounds_le client env session input options, generate_executedCalls_le client env session input options,
    fun _ _ _ _ => generate_rejected, ?_⟩
  intro opened log s hlog hreach
  have hs : client.LoopInv env options opened s :=
    hreach.invariant (fun _ _ => loopInv_again) (loopInv_start client env options opened hlog)
  refine ⟨hs.round, hs.round_le, hs.toolCalls, ?_, fun _ => round_of_again hs, ?_⟩
  · rw [remainingCalls_toNat hs.toolCalls_le, hs.toolCalls]
  · intro exit hexit
    cases finished_leave hs hexit with
    | threw => exact nofun
    | returned => exact nofun

/-! ## Which calls reach a tool -/

theorem toolSpecs_sorted (client : AIClient) : client.toolSpecs.Pairwise fun a b => a.name < b.name := by
  have hle : client.toolSpecs.Pairwise fun a b => a.name ≤ b.name := by
    have : Std.Total fun a b : ToolSpec => a.name ≤ b.name := ⟨fun a b => le_total a.name b.name⟩
    have : IsTrans ToolSpec fun a b => a.name ≤ b.name := ⟨fun _ _ _ => le_trans⟩
    exact List.pairwise_insertionSort _ _
  have hne : client.toolSpecs.Pairwise fun a b => a.name ≠ b.name := by
    have hd := (List.perm_insertionSort (fun a b : ToolSpec => a.name ≤ b.name) client.registry.specs).map ToolSpec.name
    exact List.pairwise_map.mp (hd.nodup_iff.mpr client.registry.distinct)
  exact hle.imp₂ (fun _ _ => lt_of_le_of_ne) hne

end AIClient

end NeuralPlus
