import NeuralPlus.RunSound

/-!
# Token accounting

A cumulative counter of a generation is the exact sum of what its rounds
reported, present while every round reported it. The fold keeps nothing but
the sums and the number of the round.
-/

namespace NeuralPlus

open Fallible

/-! ## Sums of reported counts -/

/-- The sum of the counts, if each of them was reported. -/
def exactSum (l : List (Option Nat)) : Option Nat :=
  if l.all Option.isSome then some (l.foldl (fun n x => n + x.getD 0) 0) else none

def addReported : Option Nat → Option Nat → Option Nat
  | some m, some n => some (m + n)
  | _, _ => none

theorem exactSum_concat (l : List (Option Nat)) (x : Option Nat) :
    exactSum (l ++ [x]) = addReported (exactSum l) x := by
  unfold exactSum
  rw [List.all_append, List.foldl_append]
  by_cases hall : l.all Option.isSome = true
  · cases x with
    | none => simp [hall, addReported]
    | some n => simp [hall, addReported]
  · cases x with
    | none => simp [hall, addReported]
    | some n => simp [hall, addReported]

theorem exactSum_isSome {l : List (Option Nat)} : (exactSum l).isSome ↔ ∀ x ∈ l, x.isSome = true := by
  unfold exactSum
  by_cases hall : l.all Option.isSome = true
  · rw [if_pos hall]
    exact iff_of_true rfl (List.all_eq_true.mp hall)
  · rw [if_neg hall]
    simpa using hall

/-! ## One counter -/

inductive UsageField where
  | inputTokens | outputTokens | totalTokens | cachedInputTokens | cacheCreationInputTokens | reasoningTokens
  deriving DecidableEq

def TokenUsage.count (usage : TokenUsage) : UsageField → Option Nat
  | .inputTokens => usage.inputTokens.map UInt64.toNat
  | .outputTokens => usage.outputTokens.map UInt64.toNat
  | .totalTokens => usage.totalTokens.map UInt64.toNat
  | .cachedInputTokens => usage.cachedInputTokens.map UInt64.toNat
  | .cacheCreationInputTokens => usage.cacheCreationInputTokens.map UInt64.toNat
  | .reasoningTokens => usage.reasoningTokens.map UInt64.toNat

def usageOverflow : Exc := .provider "token usage overflow" .custom 0 "" ""

/-- The sum before this value: nothing was counted before the first one. -/
def sumBefore (total : Option Nat) (firstValue : Bool) : Option Nat := if firstValue then some 0 else total

def Overflows (n : Option Nat) : Prop := ∃ m, n = some m ∧ SizeT.max.toNat < m

theorem addCount_cases (total value : Option SizeT) (first : Bool) :
    let sum := addReported (sumBefore (total.map UInt64.toNat) first) (value.map UInt64.toNat)
    (¬ Overflows sum ∧ ∃ new, addCount total value first = .ok new ∧ new.map UInt64.toNat = sum) ∨
      (Overflows sum ∧ addCount total value first = .error usageOverflow) := by
  cases value with
  | none =>
    refine .inl ⟨?_, none, rfl, ?_⟩
    · rintro ⟨m, h, _⟩
      cases hs : sumBefore (total.map UInt64.toNat) first <;> rw [hs] at h <;> cases h
    · cases sumBefore (total.map UInt64.toNat) first <;> rfl
  | some v =>
    cases first with
    | true =>
      refine .inl ⟨?_, some v, rfl, by simp [sumBefore, addReported]⟩
      rintro ⟨m, h, hm⟩
      simp only [sumBefore, addReported, Option.map_some, if_true, Option.some.injEq] at h
      have := v.toNat_lt
      rw [SizeT.max_toNat] at hm
      omega
    | false =>
      cases total with
      | none =>
        refine .inl ⟨?_, none, rfl, rfl⟩
        rintro ⟨m, h, _⟩
        cases h
      | some current =>
        have hsum : addReported (sumBefore ((some current).map UInt64.toNat) false) ((some v).map UInt64.toNat) =
            some (current.toNat + v.toNat) := rfl
        have hmax := SizeT.max_sub_toNat current
        dsimp only
        rw [hsum]
        unfold addCount
        dsimp only
        rw [if_neg Bool.false_ne_true]
        have hcurrent := current.toNat_lt
        have hmaximum := SizeT.max_toNat
        -- the guard of the source is the overflow test: it subtracts, so nothing wraps before it
        by_cases hlt : v > SizeT.max - current
        · rw [if_pos hlt]
          refine .inr ⟨⟨_, rfl, ?_⟩, rfl⟩
          have := UInt64.lt_iff_toNat_lt.mp hlt
          omega
        · rw [if_neg hlt]
          have hle : v.toNat ≤ SizeT.max.toNat - current.toNat := by
            have := UInt64.lt_iff_toNat_lt.not.mp hlt
            omega
          refine .inl ⟨?_, some (current + v), rfl, ?_⟩
          · rintro ⟨m, h, hm⟩
            rw [Option.some.injEq] at h
            omega
          · rw [Option.map_some, SizeT.toNat_add_of_le_sub (UInt64.not_lt.mp hlt)]

/-! ## All six -/

/-- What a counter of `value` makes of the sum in `total`. -/
def nextCount (total value : TokenUsage) (first : Bool) (field : UsageField) : Option Nat :=
  addReported (sumBefore (total.count field) first) (value.count field)

theorem addUsage_cases (total value : TokenUsage) (first : Bool) :
    ((∀ field, ¬ Overflows (nextCount total value first field)) ∧
      ∃ new, addUsage total value first = .ok new ∧ ∀ field, new.count field = nextCount total value first field) ∨
    ((∃ field, Overflows (nextCount total value first field)) ∧ addUsage total value first = .error usageOverflow) := by
  unfold addUsage
  rcases addCount_cases total.inputTokens value.inputTokens first with ⟨n₁, c₁, e₁, h₁⟩ | ⟨ho, he⟩
  case inr => exact .inr ⟨⟨.inputTokens, ho⟩, by rw [he]; rfl⟩
  rcases addCount_cases total.outputTokens value.outputTokens first with ⟨n₂, c₂, e₂, h₂⟩ | ⟨ho, he⟩
  case inr => exact .inr ⟨⟨.outputTokens, ho⟩, by rw [e₁, he]; rfl⟩
  rcases addCount_cases total.totalTokens value.totalTokens first with ⟨n₃, c₃, e₃, h₃⟩ | ⟨ho, he⟩
  case inr => exact .inr ⟨⟨.totalTokens, ho⟩, by rw [e₁, e₂, he]; rfl⟩
  rcases addCount_cases total.cachedInputTokens value.cachedInputTokens first with ⟨n₄, c₄, e₄, h₄⟩ | ⟨ho, he⟩
  case inr => exact .inr ⟨⟨.cachedInputTokens, ho⟩, by rw [e₁, e₂, e₃, he]; rfl⟩
  rcases addCount_cases total.cacheCreationInputTokens value.cacheCreationInputTokens first with
    ⟨n₅, c₅, e₅, h₅⟩ | ⟨ho, he⟩
  case inr => exact .inr ⟨⟨.cacheCreationInputTokens, ho⟩, by rw [e₁, e₂, e₃, e₄, he]; rfl⟩
  rcases addCount_cases total.reasoningTokens value.reasoningTokens first with ⟨n₆, c₆, e₆, h₆⟩ | ⟨ho, he⟩
  case inr => exact .inr ⟨⟨.reasoningTokens, ho⟩, by rw [e₁, e₂, e₃, e₄, e₅, he]; rfl⟩
  refine .inl ⟨?_, ⟨c₁, c₂, c₃, c₄, c₅, c₆⟩, by rw [e₁, e₂, e₃, e₄, e₅, e₆]; rfl, ?_⟩
  · intro field
    cases field <;> assumption
  · intro field
    cases field <;> assumption

/-! ## The counters of a run -/

def Round.reported (r : Round) (field : UsageField) : Option Nat :=
  r.response.bind fun response => response.usage.count field

def runTotal (rounds : List Round) (field : UsageField) : Option Nat :=
  exactSum (rounds.map fun r => r.reported field)

theorem runTotal_concat (rounds : List Round) (r : Round) (field : UsageField) :
    runTotal (rounds ++ [r]) field = addReported (runTotal rounds field) (r.reported field) := by
  unfold runTotal
  rw [List.map_append, List.map_singleton, exactSum_concat]

theorem runTotal_isSome (rounds : List Round) (field : UsageField) :
    (runTotal rounds field).isSome ↔ ∀ r ∈ rounds, (r.reported field).isSome = true := by
  unfold runTotal
  rw [exactSum_isSome, List.forall_mem_map]

namespace AIClient

variable {client : AIClient} {env : RunEnv} {options : GenerateOptions} {opened : Session} {s t : LoopState}

structure CallsPass (client : AIClient) (before : List Round) (response : AIResponse) : Prop where
  role : response.message.role = .assistant
  within : executedCalls before + response.message.toolCalls.length ≤ client.options.maxToolCallsPerGeneration.toNat
  named : Named response.message.toolCalls
  distinct : (response.message.toolCalls.map ToolCall.id).Nodup

theorem acceptResponse_of_callsPass (hs : client.LoopInv env options opened s) {response : AIResponse}
    (h : client.CallsPass s.log.rounds response) :
    client.acceptResponse s response = addUsage s.cumulativeUsage response.usage (s.round = 1) := by
  have hwithin : ¬ response.message.toolCalls.length > (client.remainingCalls s.cumulativeToolCalls).toNat := by
    rw [remainingCalls_toNat hs.toolCalls_le, hs.toolCalls]
    have := h.within
    omega
  have hids : client.checkCallIds response.providerRequestId [] response.message.toolCalls = .ok () :=
    (checkCallIds_ok_iff client).mpr ⟨h.named, h.distinct, by simp⟩
  unfold acceptResponse
  rw [h.role, hids]
  simp [throwIf, hwithin]

structure UsageInv (s : LoopState) : Prop where
  cumulative : s.log.rounds ≠ [] → ∀ field, s.cumulativeUsage.count field = runTotal s.log.rounds field
  fits : History.Holds (fun before r => ∀ field, ¬ Overflows (runTotal (before ++ [r]) field)) s.log.rounds

section
variable (hs : client.LoopInv env options opened s) (hu : UsageInv s)
include hs hu

theorem nextCount_eq {r : Round} {response : AIResponse} (hr : r.response = some response) (field : UsageField) :
    nextCount s.cumulativeUsage response.usage (s.round = 1) field = runTotal (s.log.rounds ++ [r]) field := by
  have hreported : r.reported field = response.usage.count field := by
    unfold Round.reported
    rw [hr, Option.bind_some]
  have hbefore : sumBefore (s.cumulativeUsage.count field) (s.round = 1) = runTotal s.log.rounds field := by
    have hround := hs.round
    unfold sumBefore
    by_cases hfirst : s.round = 1
    · -- the first round: the sum over no rounds
      have hnil : s.log.rounds = [] := by
        rw [hfirst, UInt64.toNat_one] at hround
        exact List.length_eq_zero_iff.mp (by omega)
      rw [if_pos (by simpa using hfirst), hnil]
      rfl
    · have hne : s.log.rounds ≠ [] := by
        intro hnil
        rw [hnil] at hround
        exact hfirst (UInt64.toNat_inj.mp hround)
      rw [if_neg (by simpa using hfirst), hu.cumulative hne field]
  rw [nextCount, hbefore, runTotal_concat, hreported]

theorem accepted_usage {r : Round} {response : AIResponse} {usage : TokenUsage} (hr : r.response = some response)
    (h : client.Accepted s response usage) (field : UsageField) :
    usage.count field = runTotal (s.log.rounds ++ [r]) field ∧ ¬ Overflows (runTotal (s.log.rounds ++ [r]) field) := by
  rw [← nextCount_eq hs hu hr]
  rcases addUsage_cases s.cumulativeUsage response.usage (s.round = 1) with ⟨hfits, new, hnew, hcount⟩ | ⟨_, herror⟩
  · obtain rfl : new = usage := Except.ok.inj (hnew.symm.trans h.usage)
    exact ⟨hcount field, hfits field⟩
  · exact absurd (herror.symm.trans h.usage) (by simp)

end

theorem usageInv_again (hs : client.LoopInv env options opened s) (hu : UsageInv s)
    (hb : client.loopBody env options s = .again t) : UsageInv t := by
  have hspec := loopBody_spec client env options s
  rw [hb] at hspec
  cases hspec with
  | @again response usage executions events hc hneeds =>
    have hsum := accepted_usage hs hu (r := client.completedRound env options s response executions) rfl hc.accepted
    exact ⟨fun _ field => (hsum field).1, hu.fits.concat fun field => (hsum field).2⟩

theorem Reached.usageInv {session : Session} {input : Message}
    (h : Loop.Reaches (client.loopBody env options) (firstRound client env session input) s) : UsageInv s := by
  have hloop : ∀ t, Loop.Reaches (client.loopBody env options) (firstRound client env session input) t →
      client.LoopInv env options (AIClient.opened session input) t := fun _ => Reached.loopInv rfl
  apply h.invariant_of hloop
  · intro t u hs hu hb
    exact usageInv_again hs hu hb
  · exact ⟨fun hne => absurd rfl hne, .nil⟩

theorem rejected_overflow (hs : client.LoopInv env options opened s) (hu : UsageInv s) {r : Round}
    {response : AIResponse} {e : Exc} (hr : r.response = some response)
    (hpass : client.CallsPass s.log.rounds response) (he : client.acceptResponse s response = .error e) :
    e = usageOverflow ∧ ∃ field, Overflows (runTotal (s.log.rounds ++ [r]) field) := by
  rw [acceptResponse_of_callsPass hs hpass] at he
  rcases addUsage_cases s.cumulativeUsage response.usage (s.round = 1) with ⟨_, new, hnew, _⟩ | ⟨⟨field, ho⟩, herror⟩
  · rw [hnew] at he
    cases he
  · rw [herror] at he
    rw [nextCount_eq hs hu hr] at ho
    exact ⟨(Except.error.inj he).symm, field, ho⟩

/-- In a round before the last there was no overflow, so the last round decides. -/
theorem overflow_iff_of_last (hu : UsageInv s) {last : Round} {outcome : Except Exc AIResponse}
    (hlast : ∀ response, last.response = some response → client.CallsPass s.log.rounds response →
      (outcome = .error usageOverflow ↔ ∃ field, Overflows (runTotal (s.log.rounds ++ [last]) field)))
    {before after : List Round} {r : Round} {response : AIResponse} (h : s.log.rounds ++ [last] = before ++ r :: after)
    (hr : r.response = some response) (hpass : client.CallsPass before response) :
    after = [] ∧ outcome = .error usageOverflow ↔ ∃ field, Overflows (runTotal (before ++ [r]) field) := by
  rcases History.concat_split h with ⟨rfl, rfl, rfl⟩ | ⟨after', rfl, hearlier⟩
  · rw [and_iff_right rfl]
    exact hlast response hr hpass
  · constructor
    · rintro ⟨hnil, _⟩
      simp at hnil
    · rintro ⟨field, ho⟩
      exact absurd ho (hu.fits before r after' hearlier field)

theorem usage_of_returned (hs : client.LoopInv env options opened s) (hu : UsageInv s) {response result : AIResponse}
    {usage : TokenUsage} {executions : List ToolExecution} (hc : client.Completes env options s response usage executions)
    (hresult : result.usage = usage) :
    (∀ out, (.ok result : Except Exc AIResponse) = .ok out → ∀ field,
      out.usage.count field = runTotal (s.log.rounds ++ [client.completedRound env options s response executions]) field ∧
      ((out.usage.count field).isSome ↔
        ∀ r ∈ s.log.rounds ++ [client.completedRound env options s response executions],
          (r.reported field).isSome = true)) ∧
    ∀ before r after response', s.log.rounds ++ [client.completedRound env options s response executions] =
        before ++ r :: after → r.response = some response' → client.CallsPass before response' →
        (after = [] ∧ (.ok result : Except Exc AIResponse) = .error usageOverflow ↔
          ∃ field, Overflows (runTotal (before ++ [r]) field)) := by
  have hsum := accepted_usage hs hu (r := client.completedRound env options s response executions) rfl hc.accepted
  refine ⟨?_, ?_⟩
  · intro out hout field
    obtain rfl := Except.ok.inj hout
    rw [hresult, (hsum field).1]
    exact ⟨rfl, runTotal_isSome _ field⟩
  · intro before r after response' hrounds hr hpass
    refine overflow_iff_of_last hu ?_ hrounds hr hpass
    intro _ _ _
    constructor
    · intro h
      cases h
    · rintro ⟨field, ho⟩
      exact absurd ho (hsum field).2

/-- The usage of a returned response is the sum over the rounds of the run. -/
theorem generate_total (client : AIClient) (env : RunEnv) (session : Session) (input : Message)
    (options : GenerateOptions) :
    ∀ out, (client.generate env session input options).outcome = .ok out → ∀ field,
      out.usage.count field = runTotal (client.generate env session input options).log.rounds field ∧
      ((out.usage.count field).isSome ↔
        ∀ r ∈ (client.generate env session input options).log.rounds, (r.reported field).isSome = true) := by
  rcases generate_reaches client env session input options with ⟨e, _, hg⟩ | ⟨s, exit, _, hreach, hleave, hg⟩
  · rw [hg]
    intro out hout
    cases hout
  have hs := Reached.loopInv rfl hreach
  have hu := Reached.usageInv hreach
  have hspec := loopBody_spec client env options s
  rw [hleave] at hspec
  rw [hg, conclude_rounds]
  cases hspec with
  | fellThrough | failed =>
    intro out hout
    cases hout
  | @answered response usage events hc _ => exact (usage_of_returned hs hu hc rfl).1
  | @stopped response usage executions events hc _ _ _ => exact (usage_of_returned hs hu hc rfl).1

/-- **The usage a generation returns is the exact sum over its rounds**, and a
round whose calls passed their checks ends it with the overflow error exactly
when some sum does not fit. -/
theorem generate_usage (client : AIClient) (env : RunEnv) (session : Session) (input : Message)
    (options : GenerateOptions) :
    (∀ out, (client.generate env session input options).outcome = .ok out → ∀ field,
      out.usage.count field = runTotal (client.generate env session input options).log.rounds field ∧
      ((out.usage.count field).isSome ↔
        ∀ r ∈ (client.generate env session input options).log.rounds, (r.reported field).isSome = true)) ∧
    ∀ before r after response, (client.generate env session input options).log.rounds = before ++ r :: after →
      r.response = some response → client.CallsPass before response →
        (after = [] ∧ (client.generate env session input options).outcome = .error usageOverflow ↔
          ∃ field, Overflows (runTotal (before ++ [r]) field)) := by
  refine ⟨generate_total client env session input options, ?_⟩
  rcases generate_reaches client env session input options with ⟨e, _, hg⟩ | ⟨s, exit, _, hreach, hleave, hg⟩
  · rw [hg]
    intro before r after response h
    exact absurd h (by simp)
  have hs := Reached.loopInv rfl hreach
  have hu := Reached.usageInv hreach
  have hspec := loopBody_spec client env options s
  rw [hleave] at hspec
  rw [hg, conclude_rounds]
  cases hspec with
  | fellThrough hout => exact absurd hs.round_le hout
  | @failed last e events _ hfails =>
    intro before r after response hrounds hr hpass
    refine overflow_iff_of_last hu ?_ hrounds hr hpass
    intro response hlast hpass
    cases hfails with
    | providerThrew _ => cases hlast
    | rejected _ he =>
      obtain rfl := Option.some.inj hlast
      obtain ⟨rfl, ho⟩ := rejected_overflow hs hu (r := ⟨client.requestAt env options s, some _, [], false⟩) rfl hpass he
      exact ⟨fun _ => ho, fun _ => rfl⟩
    | lastRound _ hacc _ _ =>
      obtain rfl := Option.some.inj hlast
      constructor
      · intro h
        cases h
      · rintro ⟨field, ho⟩
        exact absurd ho (accepted_usage hs hu (r := ⟨_, some _, [], false⟩) rfl hacc field).2
  | @answered response usage events hc _ => exact (usage_of_returned hs hu hc rfl).2
  | @stopped response usage executions events hc _ _ _ => exact (usage_of_returned hs hu hc rfl).2

end AIClient

end NeuralPlus
