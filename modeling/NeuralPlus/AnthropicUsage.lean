import NeuralPlus.AnthropicSound
import NeuralPlus.UsageSound

/-!
# Token counters of an Anthropic client

Anthropic reports the input that was not cached apart from cache writes and
reads. Each round adds them up with overflow guards, and relations between the
counters of the rounds carry over to the sums of a run.
-/

namespace NeuralPlus

open Fallible

/-! ## Relations between counters -/

/-- A total is input and output together, and cached input is input. -/
structure Consistent (count : UsageField → Option Nat) : Prop where
  total : ∀ t, count .totalTokens = some t →
    ∃ i o, count .inputTokens = some i ∧ count .outputTokens = some o ∧ t = i + o
  caches : ∀ i r w, count .inputTokens = some i → count .cachedInputTokens = some r →
    count .cacheCreationInputTokens = some w → r + w ≤ i
  cached : ∀ i r, count .inputTokens = some i → count .cachedInputTokens = some r → r ≤ i
  creation : ∀ i w, count .inputTokens = some i → count .cacheCreationInputTokens = some w → w ≤ i

theorem addReported_eq_some {x y : Option Nat} {n : Nat} :
    addReported x y = some n ↔ ∃ a b, x = some a ∧ y = some b ∧ a + b = n := by
  cases x with
  | none => simp [addReported]
  | some a =>
    cases y with
    | none => simp [addReported]
    | some b => simp [addReported]

theorem Consistent.zero : Consistent fun _ => some 0 := by
  refine ⟨?_, ?_, ?_, ?_⟩
  · intro t ht
    exact ⟨0, 0, rfl, rfl, (Option.some.inj ht).symm⟩
  · intro i r w hi hr hw
    obtain rfl := Option.some.inj hr
    obtain rfl := Option.some.inj hw
    exact Nat.zero_le i
  · intro i r hi hr
    obtain rfl := Option.some.inj hr
    exact Nat.zero_le i
  · intro i w hi hw
    obtain rfl := Option.some.inj hw
    exact Nat.zero_le i

theorem Consistent.add {a b : UsageField → Option Nat} (ha : Consistent a) (hb : Consistent b) :
    Consistent fun field => addReported (a field) (b field) := by
  refine ⟨?_, ?_, ?_, ?_⟩
  · intro t ht
    obtain ⟨t₁, t₂, h₁, h₂, rfl⟩ := addReported_eq_some.mp ht
    obtain ⟨i₁, o₁, hi₁, ho₁, rfl⟩ := ha.total t₁ h₁
    obtain ⟨i₂, o₂, hi₂, ho₂, rfl⟩ := hb.total t₂ h₂
    exact ⟨i₁ + i₂, o₁ + o₂, by rw [hi₁, hi₂]; rfl, by rw [ho₁, ho₂]; rfl, by omega⟩
  · intro i r w hi hr hw
    obtain ⟨i₁, i₂, hi₁, hi₂, rfl⟩ := addReported_eq_some.mp hi
    obtain ⟨r₁, r₂, hr₁, hr₂, rfl⟩ := addReported_eq_some.mp hr
    obtain ⟨w₁, w₂, hw₁, hw₂, rfl⟩ := addReported_eq_some.mp hw
    have h₁ := ha.caches i₁ r₁ w₁ hi₁ hr₁ hw₁
    have h₂ := hb.caches i₂ r₂ w₂ hi₂ hr₂ hw₂
    omega
  · intro i r hi hr
    obtain ⟨i₁, i₂, hi₁, hi₂, rfl⟩ := addReported_eq_some.mp hi
    obtain ⟨r₁, r₂, hr₁, hr₂, rfl⟩ := addReported_eq_some.mp hr
    exact Nat.add_le_add (ha.cached i₁ r₁ hi₁ hr₁) (hb.cached i₂ r₂ hi₂ hr₂)
  · intro i w hi hw
    obtain ⟨i₁, i₂, hi₁, hi₂, rfl⟩ := addReported_eq_some.mp hi
    obtain ⟨w₁, w₂, hw₁, hw₂, rfl⟩ := addReported_eq_some.mp hw
    exact Nat.add_le_add (ha.creation i₁ w₁ hi₁ hw₁) (hb.creation i₂ w₂ hi₂ hw₂)

theorem consistent_runTotal {rounds : List Round} (h : ∀ r ∈ rounds, Consistent r.reported) :
    Consistent (runTotal rounds) := by
  induction rounds using List.reverseRecOn with
  | nil => exact Consistent.zero
  | append_singleton rounds r ih =>
    rw [List.forall_mem_append, List.forall_mem_singleton] at h
    have hsum : runTotal (rounds ++ [r]) = fun field => addReported (runTotal rounds field) (r.reported field) :=
      funext (runTotal_concat rounds r)
    rw [hsum]
    exact (ih h.1).add h.2

namespace AnthropicClient

/-! ## One response -/

theorem addInput_ok {overflow : Exc} {total sum : SizeT} {count : Option SizeT}
    (h : addInput overflow total count = .ok sum) : sum.toNat = total.toNat + (count.map UInt64.toNat).getD 0 := by
  cases count with
  | none =>
    obtain rfl := Except.ok.inj h
    rfl
  | some c =>
    unfold addInput at h
    dsimp only at h
    by_cases hlt : c > SizeT.max - total
    · rw [if_pos hlt] at h
      cases h
    · rw [if_neg hlt] at h
      obtain rfl := Except.ok.inj h
      exact SizeT.toNat_add_of_le_sub (UInt64.not_lt.mp hlt)

theorem totalInput_ok {overflow : Exc} {usage : JsonValue} {input : Option SizeT}
    (h : totalInput overflow usage = .ok input) :
    input.map UInt64.toNat = (usage.sizeField "input_tokens").map fun uncached =>
      uncached.toNat + ((usage.sizeField "cache_creation_input_tokens").map UInt64.toNat).getD 0 +
        ((usage.sizeField "cache_read_input_tokens").map UInt64.toNat).getD 0 := by
  unfold totalInput at h
  cases hu : usage.sizeField "input_tokens" with
  | none =>
    rw [hu] at h
    obtain rfl := Except.ok.inj h
    rfl
  | some uncached =>
    rw [hu] at h
    simp only [bind_eq_ok, pure_eq_ok, Except.ok.injEq] at h
    obtain ⟨written, hwritten, read, hread, rfl⟩ := h
    rw [Option.map_some, Option.map_some, addInput_ok hread, addInput_ok hwritten]

/-- Total input counts the cache counters that are there. -/
theorem le_input {usage : JsonValue} {input : Option SizeT} {i : Nat} (hi : input.map UInt64.toNat = some i)
    (hsum : input.map UInt64.toNat = (usage.sizeField "input_tokens").map fun uncached =>
      uncached.toNat + ((usage.sizeField "cache_creation_input_tokens").map UInt64.toNat).getD 0 +
        ((usage.sizeField "cache_read_input_tokens").map UInt64.toNat).getD 0) :
    ((usage.sizeField "cache_creation_input_tokens").map UInt64.toNat).getD 0 +
      ((usage.sizeField "cache_read_input_tokens").map UInt64.toNat).getD 0 ≤ i := by
  rw [hi] at hsum
  obtain ⟨uncached, _, heq⟩ := Option.map_eq_some_iff.mp hsum.symm
  omega

theorem parseUsage_consistent {overflow : Exc} {usage : JsonValue} {parsed : TokenUsage}
    (h : parseUsage overflow usage = .ok parsed) : Consistent parsed.count := by
  unfold parseUsage at h
  simp only [bind_eq_ok, pure_eq_ok, Except.ok.injEq] at h
  obtain ⟨input, hinput, rfl⟩ := h
  have hsum := totalInput_ok hinput
  refine ⟨?_, ?_, ?_, ?_⟩
  · intro t ht
    cases input with
    | none => cases ht
    | some i =>
      cases ho : usage.sizeField "output_tokens" with
      | none =>
        simp only [TokenUsage.count, ho] at ht
        cases ht
      | some o =>
        simp only [TokenUsage.count, ho] at ht ⊢
        refine ⟨i.toNat, o.toNat, rfl, rfl, ?_⟩
        by_cases hle : o ≤ SizeT.max - i
        · rw [if_pos hle, Option.map_some, Option.some.injEq, SizeT.toNat_add_of_le_sub hle] at ht
          exact ht.symm
        · rw [if_neg hle] at ht
          cases ht
  · intro i r w hi hr hw
    have hle := le_input hi hsum
    rw [show (usage.sizeField "cache_read_input_tokens").map UInt64.toNat = some r from hr,
      show (usage.sizeField "cache_creation_input_tokens").map UInt64.toNat = some w from hw, Option.getD_some,
      Option.getD_some] at hle
    omega
  · intro i r hi hr
    have hle := le_input hi hsum
    rw [show (usage.sizeField "cache_read_input_tokens").map UInt64.toNat = some r from hr, Option.getD_some] at hle
    omega
  · intro i w hi hw
    have hle := le_input hi hsum
    rw [show (usage.sizeField "cache_creation_input_tokens").map UInt64.toNat = some w from hw,
      Option.getD_some] at hle
    omega

theorem parseResponse_consistent {json : JsonText} {response : HttpResponse} {r : AIResponse}
    (h : parseResponse json response = .ok r) : Consistent r.usage.count := by
  unfold parseResponse at h
  simp only [bind_eq_ok, pure_eq_ok, Except.ok.injEq] at h
  obtain ⟨_, _, _, _, _, _, usage, husage, rfl⟩ := h
  exact parseUsage_consistent husage

/-! ## A run -/

/-- **The usage a generation of an Anthropic client returns is consistent.** -/
theorem generate_consistent {json : JsonText} {client : BuiltInClient} {impl : Impl}
    (hclient : client.adapter = .anthropic impl) (session : Session) (call : Call) {out : AIResponse}
    (hout : (client.generate json session call).outcome = .ok out) : Consistent out.usage.count := by
  have htotal := AIClient.generate_total client.base (client.env json call) session call.input call.options out hout
  have hcount : out.usage.count = runTotal (client.generate json session call).log.rounds :=
    funext fun field => (htotal field).1
  rw [hcount]
  apply consistent_runTotal
  unfold BuiltInClient.generate at hout ⊢
  cases AIClient.generate_ended client.base (client.env json call) session call.input call.options with
  | refused _ he => rw [he] at hout; cases hout
  | threw _ _ _ he => rw [he] at hout; cases hout
  | returned _ hrounds hlast _ _ _ _ _ _ _ hlog _ =>
    rw [hlog]
    intro r hr
    obtain ⟨before, response, hc⟩ := ((AIClient.Continued.completed hrounds).concat ⟨_, hlast⟩).exists_before hr
    have hsent : client.adapter.generateOnce json (call.send before.length) r.request = .ok response := hc.sent
    obtain ⟨http, hparse⟩ := Adapter.generateOnce_ok hsent
    rw [hclient] at hparse
    have hreported : r.reported = response.usage.count := by
      funext field
      unfold Round.reported
      rw [hc.answer, Option.bind_some]
    rw [hreported]
    exact parseResponse_consistent hparse

def usageBody : JsonValue :=
  .ofMembers [("content", .array [.ofMembers [("type", .string "text"), ("text", .string "hello")]]),
    ("stop_reason", .string "end_turn"),
    ("usage", .ofMembers [("input_tokens", .unsigned 5), ("cache_read_input_tokens", .unsigned 7),
      ("output_tokens", .unsigned 3)])]

theorem generate_consistent_cached : ∃ out,
    (sampleClient.generate (fixedText usageBody) { id := "session-1" } sampleCall).outcome = .ok out ∧
      out.usage.totalTokens = some 15 ∧ Consistent out.usage.count := by
  have hout : (sampleClient.generate (fixedText usageBody) { id := "session-1" } sampleCall).outcome = .ok _ := rfl
  exact ⟨_, hout, rfl, generate_consistent (show sampleClient.adapter = .anthropic _ from rfl) _ sampleCall hout⟩

end AnthropicClient

end NeuralPlus
