import NeuralPlus.Fallible

/-!
# Items with their origins

A history to which every message adds a list of items of its own, whatever is
there already. `traceAll` keeps the message beside each item it added.
-/

namespace Origins

open Fallible

universe u

variable {β ε μ : Type u} {itemsOf : μ → Except ε (List β)}

def label (itemsOf : μ → Except ε (List β)) (message : μ) : Except ε (List (μ × β)) :=
  (itemsOf message).map fun items => items.map (Prod.mk message)

def traceAll (itemsOf : μ → Except ε (List β)) : List μ → Except ε (List (μ × β))
  | [] => .ok []
  | m :: messages => do return (← label itemsOf m) ++ (← traceAll itemsOf messages)

theorem label_ok {message : μ} {labelled : List (μ × β)} (h : label itemsOf message = .ok labelled) :
    ∃ items, itemsOf message = .ok items ∧ labelled = items.map (Prod.mk message) := by
  unfold label at h
  cases hi : itemsOf message with
  | error e => rw [hi] at h; cases h
  | ok items =>
    rw [hi] at h
    exact ⟨items, rfl, (Except.ok.inj h).symm⟩

theorem traceAll_cons {m : μ} {messages : List μ} {labelled : List (μ × β)} :
    traceAll itemsOf (m :: messages) = .ok labelled ↔
      ∃ own rest, label itemsOf m = .ok own ∧ traceAll itemsOf messages = .ok rest ∧ labelled = own ++ rest := by
  simp only [traceAll, bind_eq_ok, pure_eq_ok, Except.ok.injEq]
  constructor
  · rintro ⟨own, ho, rest, hr, rfl⟩
    exact ⟨own, rest, ho, hr, rfl⟩
  · rintro ⟨own, rest, ho, hr, rfl⟩
    exact ⟨own, ho, rest, hr, rfl⟩

theorem traceAll_append : ∀ {messages more : List μ} {labelled : List (μ × β)},
    traceAll itemsOf (messages ++ more) = .ok labelled ↔
      ∃ before after, traceAll itemsOf messages = .ok before ∧ traceAll itemsOf more = .ok after ∧
        labelled = before ++ after
  | [], more, labelled => by simp [traceAll]
  | m :: messages, more, labelled => by
    rw [List.cons_append, traceAll_cons]
    constructor
    · rintro ⟨own, rest, ho, hr, rfl⟩
      obtain ⟨before, after, hb, ha, rfl⟩ := traceAll_append.mp hr
      exact ⟨own ++ before, after, traceAll_cons.mpr ⟨own, before, ho, hb, rfl⟩, ha, (List.append_assoc ..).symm⟩
    · rintro ⟨before, after, hb, ha, rfl⟩
      obtain ⟨own, rest, ho, hr, rfl⟩ := traceAll_cons.mp hb
      exact ⟨own, rest ++ after, ho, traceAll_append.mpr ⟨rest, after, hr, ha, rfl⟩, List.append_assoc ..⟩

theorem traceAll_singleton {m : μ} {labelled : List (μ × β)} :
    traceAll itemsOf [m] = .ok labelled ↔ label itemsOf m = .ok labelled := by
  rw [traceAll_cons]
  simp [traceAll]

/-- **An encoder that adds the items of each message builds the traced history**, once the origins are dropped. -/
theorem foldlM_eq_traced {append : List β → μ → Except ε (List β)}
    (happend : ∀ items m, append items m = (itemsOf m).map (items ++ ·)) :
    ∀ (messages : List μ) (items : List β),
      messages.foldlM append items = (traceAll itemsOf messages).map fun labelled => items ++ labelled.map Prod.snd
  | [], items => congrArg Except.ok (List.append_nil items).symm
  | m :: messages, items => by
    rw [List.foldlM_cons, happend]
    unfold traceAll label
    cases itemsOf m with
    | error e => rfl
    | ok own =>
      show messages.foldlM append (items ++ own) = _
      rw [foldlM_eq_traced happend messages]
      cases traceAll itemsOf messages with
      | error e => rfl
      | ok rest =>
        refine congrArg Except.ok ?_
        simp [Function.comp_def]

end Origins
