import NeuralPlus.Fallible
import Mathlib.Data.List.Chain
import Mathlib.Data.List.Induction

/-!
# Turns

Messages that are sent as blocks under a role, where adjacent blocks of one
role share a turn. Each block can carry the message it came from: `trace`
builds the turns with these origins, and `flatten_traceAll` says that merging
loses, repeats and reorders no block.
-/

namespace Turns

open Fallible

universe u

variable {ρ β γ μ : Type u} [DecidableEq ρ]

def push (turns : List (ρ × List β)) (role : ρ) (blocks : List β) : List (ρ × List β) :=
  match turns.getLast? with
  | none => [(role, blocks)]
  | some (r, present) =>
    if r = role then turns.dropLast ++ [(role, present ++ blocks)] else turns ++ [(role, blocks)]

theorem push_concat (turns : List (ρ × List β)) (r role : ρ) (present blocks : List β) :
    push (turns ++ [(r, present)]) role blocks =
      if r = role then turns ++ [(role, present ++ blocks)] else turns ++ [(r, present), (role, blocks)] := by
  unfold push
  simp

theorem push_concat_same (turns : List (ρ × List β)) (role : ρ) (present blocks : List β) :
    push (turns ++ [(role, present)]) role blocks = turns ++ [(role, present ++ blocks)] := by
  rw [push_concat, if_pos rfl]

theorem push_concat_ne {r role : ρ} (h : r ≠ role) (turns : List (ρ × List β)) (present blocks : List β) :
    push (turns ++ [(r, present)]) role blocks = turns ++ [(r, present), (role, blocks)] := by
  rw [push_concat, if_neg h]

theorem push_cases (turns : List (ρ × List β)) (role : ρ) (blocks : List β) :
    (∃ before present, turns = before ++ [(role, present)] ∧
      push turns role blocks = before ++ [(role, present ++ blocks)]) ∨
    push turns role blocks = turns ++ [(role, blocks)] ∧ ∀ before present, turns ≠ before ++ [(role, present)] := by
  rcases List.eq_nil_or_concat turns with rfl | ⟨before, ⟨r, present⟩, rfl⟩
  · refine .inr ⟨rfl, ?_⟩
    intro before present h
    have := congrArg List.length h
    simp at this
  · rw [List.concat_eq_append]
    by_cases h : r = role
    · subst h
      exact .inl ⟨before, present, rfl, push_concat_same ..⟩
    · refine .inr ⟨by rw [push_concat_ne h]; simp, ?_⟩
      intro before' present' he
      have hlast := (List.append_inj' he rfl).2
      simp only [List.cons.injEq, Prod.mk.injEq] at hlast
      exact h hlast.1.1

theorem push_push (turns : List (ρ × List β)) (role : ρ) (a b : List β) :
    push (push turns role a) role b = push turns role (a ++ b) := by
  obtain ⟨before, present, rfl, h⟩ | ⟨h, _⟩ := push_cases turns role a
  · rw [push_concat_same, push_concat_same, push_concat_same, List.append_assoc]
  · rw [h, push_concat_same]
    rcases List.eq_nil_or_concat turns with rfl | ⟨before, ⟨r, present⟩, rfl⟩
    · rfl
    · rw [List.concat_eq_append] at h ⊢
      by_cases hr : r = role
      · subst hr
        rw [push_concat_same] at h
        have := congrArg List.length h
        simp at this
      · rw [push_concat_ne hr]
        simp

def flatten (turns : List (ρ × List β)) : List (ρ × β) := turns.flatMap fun t => t.2.map (Prod.mk t.1)

theorem flatten_push (turns : List (ρ × List β)) (role : ρ) (blocks : List β) :
    flatten (push turns role blocks) = flatten turns ++ blocks.map (Prod.mk role) := by
  obtain ⟨before, present, rfl, h⟩ | ⟨h, _⟩ := push_cases turns role blocks
  · rw [h]
    simp [flatten]
  · rw [h]
    simp [flatten]

def mapBlocks (f : β → γ) (turns : List (ρ × List β)) : List (ρ × List γ) := turns.map fun t => (t.1, t.2.map f)

theorem mapBlocks_push (f : β → γ) (turns : List (ρ × List β)) (role : ρ) (blocks : List β) :
    mapBlocks f (push turns role blocks) = push (mapBlocks f turns) role (blocks.map f) := by
  rcases List.eq_nil_or_concat turns with rfl | ⟨before, ⟨r, present⟩, rfl⟩
  · rfl
  · rw [List.concat_eq_append]
    by_cases h : r = role
    · subst h
      rw [push_concat_same]
      simp [mapBlocks, push_concat_same]
    · rw [push_concat_ne h]
      simp [mapBlocks, push_concat_ne h]

def Alternate (turns : List (ρ × List β)) : Prop := turns.IsChain fun a b => a.1 ≠ b.1

theorem Alternate.push {turns : List (ρ × List β)} (h : Alternate turns) (role : ρ) (blocks : List β) :
    Alternate (push turns role blocks) := by
  unfold Alternate at h ⊢
  obtain ⟨before, present, rfl, hpush⟩ | ⟨hpush, hlast⟩ := push_cases turns role blocks
  · rw [hpush]
    rw [List.isChain_append] at h ⊢
    refine ⟨h.1, List.isChain_singleton _, ?_⟩
    intro a ha b hb
    obtain rfl : (role, present ++ blocks) = b := by simpa using hb
    exact h.2.2 a ha (role, present) rfl
  · rw [hpush, List.isChain_append]
    refine ⟨h, List.isChain_singleton _, ?_⟩
    intro a ha b hb hrole
    obtain rfl : (role, blocks) = b := by simpa using hb
    obtain ⟨before, rfl⟩ := List.getLast?_eq_some_iff.mp ha
    have hsame : a.1 = role := hrole
    apply hlast before a.2
    rw [← hsame]

/-! ## Turns that only grow -/

/-- Later blocks join the last turn, or open turns behind it. -/
def Extends (turns turns' : List (ρ × List β)) : Prop :=
  turns = [] ∨ ∃ before role present more after,
    turns = before ++ [(role, present)] ∧ turns' = before ++ (role, present ++ more) :: after

omit [DecidableEq ρ] in
theorem Extends.refl (turns : List (ρ × List β)) : Extends turns turns := by
  rcases List.eq_nil_or_concat turns with rfl | ⟨before, ⟨role, present⟩, rfl⟩
  · exact .inl rfl
  · refine .inr ⟨before, role, present, [], [], List.concat_eq_append, ?_⟩
    rw [List.append_nil, List.concat_eq_append]

omit [DecidableEq ρ] in
theorem Extends.trans {a b c : List (ρ × List β)} (h : Extends a b) (h' : Extends b c) : Extends a c := by
  obtain rfl | ⟨before, role, present, more, after, rfl, rfl⟩ := h
  · exact .inl rfl
  obtain hnil | ⟨before', role', present', more', after', heq, rfl⟩ := h'
  · exact absurd hnil (by simp)
  refine .inr ⟨before, role, present, ?_⟩
  -- the last turn of `b` is the extended one, or one behind it
  rcases List.eq_nil_or_concat after with rfl | ⟨after, last, rfl⟩
  · obtain ⟨rfl, hlast⟩ := List.append_inj' heq rfl
    obtain ⟨rfl, rfl⟩ : role = role' ∧ present ++ more = present' := by simpa using hlast
    exact ⟨more ++ more', after', rfl, by rw [List.append_assoc]⟩
  · rw [List.concat_eq_append, ← List.cons_append, ← List.append_assoc] at heq
    obtain ⟨rfl, _⟩ := List.append_inj' heq rfl
    exact ⟨more, after ++ (role', present' ++ more') :: after', rfl, by simp⟩

theorem extends_push (turns : List (ρ × List β)) (role : ρ) (blocks : List β) :
    Extends turns (push turns role blocks) := by
  obtain ⟨before, present, rfl, h⟩ | ⟨h, _⟩ := push_cases turns role blocks
  · rw [h]
    exact .inr ⟨before, role, present, blocks, [], rfl, rfl⟩
  · rw [h]
    rcases List.eq_nil_or_concat turns with rfl | ⟨before, ⟨r, present⟩, rfl⟩
    · exact .inl rfl
    · refine .inr ⟨before, r, present, [], [(role, blocks)], List.concat_eq_append, ?_⟩
      simp

omit [DecidableEq ρ] in
theorem Extends.mapBlocks {turns turns' : List (ρ × List β)} (h : Extends turns turns') (f : β → γ) :
    Extends (mapBlocks f turns) (mapBlocks f turns') := by
  obtain rfl | ⟨before, role, present, more, after, rfl, rfl⟩ := h
  · exact .inl rfl
  · refine .inr ⟨Turns.mapBlocks f before, role, present.map f, more.map f, Turns.mapBlocks f after, ?_, ?_⟩
    · simp [Turns.mapBlocks]
    · simp [Turns.mapBlocks]

/-! ## Turns of messages -/

section
variable {ε : Type u} (turnOf : μ → Except ε (Option (ρ × List β)))

def trace (turns : List (ρ × List (μ × β))) (message : μ) : Except ε (List (ρ × List (μ × β))) := do
  match ← turnOf message with
  | none => return turns
  | some (role, blocks) => return push turns role (blocks.map (Prod.mk message))

def traceAll (messages : List μ) : Except ε (List (ρ × List (μ × β))) := messages.foldlM (trace turnOf) []

variable {turnOf}

theorem trace_some {message : μ} {role : ρ} {blocks : List β} (h : turnOf message = .ok (some (role, blocks)))
    (turns : List (ρ × List (μ × β))) :
    trace turnOf turns message = .ok (push turns role (blocks.map (Prod.mk message))) := by
  unfold trace
  rw [h]
  rfl

theorem trace_ok {turns turns' : List (ρ × List (μ × β))} {message : μ} (h : trace turnOf turns message = .ok turns') :
    turnOf message = .ok none ∧ turns' = turns ∨
    ∃ role blocks, turnOf message = .ok (some (role, blocks)) ∧
      turns' = push turns role (blocks.map (Prod.mk message)) := by
  unfold trace at h
  simp only [bind_eq_ok] at h
  obtain ⟨t, ht, h⟩ := h
  cases t with
  | none => exact .inl ⟨ht, (Except.ok.inj h).symm⟩
  | some t => exact .inr ⟨t.1, t.2, ht, (Except.ok.inj h).symm⟩

theorem trace_returns (turns : List (ρ × List (μ × β))) (message : μ) :
    Returns (trace turnOf turns message) ↔ Returns (turnOf message) := by
  unfold trace
  cases turnOf message with
  | error e => exact ⟨fun h => absurd h (not_returns_error e), fun h => absurd h (not_returns_error e)⟩
  | ok t => cases t <;> exact ⟨fun _ => returns_ok _, fun _ => returns_ok _⟩

theorem traceAll_concat {messages : List μ} {message : μ} {turns' : List (ρ × List (μ × β))} :
    traceAll turnOf (messages ++ [message]) = .ok turns' ↔
      ∃ turns, traceAll turnOf messages = .ok turns ∧ trace turnOf turns message = .ok turns' := by
  unfold traceAll
  rw [List.foldlM_append, bind_eq_ok]
  simp

theorem foldlM_trace_same {role : ρ} {blocksOf : μ → List β} :
    ∀ {messages : List μ}, (∀ m ∈ messages, turnOf m = .ok (some (role, blocksOf m))) → messages ≠ [] →
      ∀ turns, messages.foldlM (trace turnOf) turns =
        .ok (push turns role (messages.flatMap fun m => (blocksOf m).map (Prod.mk m)))
  | [m], h, _, turns => by
    rw [List.foldlM_cons, trace_some (h m (List.mem_cons_self ..))]
    simp
  | m :: m' :: messages, h, _, turns => by
    rw [List.foldlM_cons, trace_some (h m (List.mem_cons_self ..)), ok_bind,
      foldlM_trace_same (fun m hm => h m (List.mem_cons_of_mem _ hm)) (List.cons_ne_nil _ _), push_push]
    rfl

theorem extends_trace {turns turns' : List (ρ × List (μ × β))} {message : μ}
    (h : trace turnOf turns message = .ok turns') : Extends turns turns' := by
  obtain ⟨_, rfl⟩ | ⟨role, blocks, _, rfl⟩ := trace_ok h
  · exact .refl _
  · exact extends_push _ _ _

/-- **Merging loses, repeats and reorders nothing**: the blocks of the turns are those of the messages, in order. -/
theorem flatten_traceAll {contributed : μ → List (ρ × β)}
    (hc : ∀ m t, turnOf m = .ok t → contributed m = t.elim [] fun t => t.2.map (Prod.mk t.1)) :
    ∀ {messages : List μ} {turns : List (ρ × List (μ × β))}, traceAll turnOf messages = .ok turns →
      flatten turns = messages.flatMap fun m => (contributed m).map fun b => (b.1, m, b.2) := by
  intro messages
  induction messages using List.reverseRecOn with
  | nil =>
    intro turns h
    cases h
    rfl
  | append_singleton messages m ih =>
    intro turns' h
    obtain ⟨turns, hturns, hm⟩ := traceAll_concat.mp h
    rw [List.flatMap_append, ← ih hturns, List.flatMap_singleton]
    obtain ⟨ht, rfl⟩ | ⟨role, blocks, ht, rfl⟩ := trace_ok hm
    · rw [hc m _ ht]
      simp
    · rw [flatten_push, hc m _ ht]
      simp

end

end Turns
