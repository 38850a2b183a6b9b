import Mathlib.Data.List.Infix
import Mathlib.Logic.Relation

/-!
# Waiting in a tree of threads

Threads that launch threads, wait for them, and wait for mutexes. A thread is
named by the path that leads to it, the last step first, so that the threads
above it are the suffixes of its name. A cycle of waiting threads is a cycle of
mutexes, each held by a thread or above it while the thread wants the next.
-/

open Relation

namespace WaitFor

universe u v

/-! ## Cycles -/

section
variable {α : Type u} {r r' : α → α → Prop}

def Acyclic (r : α → α → Prop) : Prop := ∀ a, ¬ TransGen r a a

theorem Acyclic.mono (h : Acyclic r) (hle : ∀ a b, r' a b → r a b) : Acyclic r' := fun a hcycle =>
  h a (TransGen.mono hle a a hcycle)

theorem path_of_into {m : α} {P : α → Prop} (hnew : ∀ a b, r' a b → r a b ∨ P a ∧ b = m)
    (hm : ∀ a, P a → ¬ ReflTransGen r m a) {a b : α} (h : TransGen r' a b) :
    TransGen r a b ∨ ∃ c, P c ∧ ReflTransGen r a c ∧ ReflTransGen r m b := by
  induction h with
  | single hab =>
    rcases hnew _ _ hab with hold | ⟨hP, rfl⟩
    · exact .inl (.single hold)
    · exact .inr ⟨a, hP, .refl, .refl⟩
  | tail _ hbc ih =>
    rcases hnew _ _ hbc with hold | ⟨hP, rfl⟩
    · rcases ih with hab | ⟨c, hc, hac, hmb⟩
      · exact .inl (hab.tail hold)
      · exact .inr ⟨c, hc, hac, hmb.tail hold⟩
    · rcases ih with hab | ⟨_, _, _, hmb⟩
      · exact .inr ⟨_, hP, hab.to_reflTransGen, .refl⟩
      · exact absurd hmb (hm _ hP)

/-- Edges into a point close no cycle if the point leads to none of their starts. -/
theorem Acyclic.into (h : Acyclic r) {m : α} {P : α → Prop} (hnew : ∀ a b, r' a b → r a b ∨ P a ∧ b = m)
    (hm : ∀ a, P a → ¬ ReflTransGen r m a) : Acyclic r' := by
  intro a hcycle
  rcases path_of_into hnew hm hcycle with hold | ⟨c, hc, hac, hma⟩
  · exact h a hold
  · exact hm c hc (hma.trans hac)

end

/-! ## Snapshots -/

/-- Which mutexes the threads hold and want, and which threads a thread has launched and waits for. -/
structure Snapshot (ι : Type u) (τ : Type v) where
  holds : List ι → τ → Prop
  wants : List ι → τ → Prop
  launched : List ι → ι → Prop

namespace Snapshot

variable {ι : Type u} {τ : Type v} (s : Snapshot ι τ)

inductive Waits : List ι → List ι → Prop
  | mutex {t u : List ι} {m : τ} : s.wants t m → s.holds u m → Waits t u
  | callback {t : List ι} {i : ι} : s.launched t i → Waits t (i :: t)

/-- A thread wants a mutex whose holder waits, through other threads or not, for that thread. -/
def Deadlocked : Prop := ∃ t m u, s.wants t m ∧ s.holds u m ∧ ReflTransGen s.Waits u t

/-- A thread wants `b` while it or a thread above it holds `a`. -/
def HeldFor (a b : τ) : Prop := ∃ u t, u <:+ t ∧ s.holds u a ∧ s.wants t b

def Linked : Prop := ∀ t m, s.wants t m → ∀ u, u <:+ t → ReflTransGen s.Waits u t

variable {s}

theorem heldFor_of_waits {u t : List ι} (h : ReflTransGen s.Waits u t) {b : τ} (ht : s.wants t b) :
    ∀ {v : List ι} {a : τ}, v <:+ u → s.holds v a → TransGen s.HeldFor a b := by
  induction h using ReflTransGen.head_induction_on with
  | refl =>
    intro v a hv hholds
    exact .single ⟨v, t, hv, hholds, ht⟩
  | head hwaits _ ih =>
    intro v a hv hholds
    cases hwaits with
    | mutex hwants hother => exact .head ⟨v, _, hv, hholds, hwants⟩ (ih (List.suffix_refl _) hother)
    | callback _ => exact ih (hv.trans (List.suffix_cons _ _)) hholds

theorem waits_of_heldFor (hlinked : s.Linked) {a b : τ} (h : TransGen s.HeldFor a b) :
    ∃ u t, s.holds u a ∧ s.wants t b ∧ ReflTransGen s.Waits u t := by
  induction h with
  | single hab =>
    obtain ⟨u, t, hut, hholds, hwants⟩ := hab
    exact ⟨u, t, hholds, hwants, hlinked t _ hwants u hut⟩
  | tail _ hbc ih =>
    obtain ⟨u, t, hholds, hwants, hwaits⟩ := ih
    obtain ⟨u', t', hut', hholds', hwants'⟩ := hbc
    exact ⟨u, t', hholds, hwants', (hwaits.tail (.mutex hwants hholds')).trans (hlinked t' _ hwants' u' hut')⟩

/-- **A deadlock is a cycle of mutexes.** -/
theorem deadlocked_iff (hlinked : s.Linked) : s.Deadlocked ↔ ¬ Acyclic s.HeldFor := by
  unfold Acyclic
  simp only [not_forall, not_not]
  constructor
  · intro ⟨t, m, u, hwants, hholds, hwaits⟩
    exact ⟨m, heldFor_of_waits hwaits hwants (List.suffix_refl _) hholds⟩
  · intro ⟨m, hcycle⟩
    obtain ⟨u, t, hholds, hwants, hwaits⟩ := waits_of_heldFor hlinked hcycle
    exact ⟨t, m, u, hwants, hholds, hwaits⟩

end Snapshot

end WaitFor
